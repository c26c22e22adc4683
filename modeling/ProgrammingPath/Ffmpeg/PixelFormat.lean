import Mathlib.Algebra.Group.Nat.Defs
import Mathlib.Data.List.Basic
import ProgrammingPath.Lib.Memory
import ProgrammingPath.Lib.RowMajor

/-!
# Frames and packed pictures

A decoded frame has its samples in planes whose rows are `linesize` bytes apart. The functions copy them into
a buffer without gaps: plane by plane, or with the two chroma planes byte by byte in turn (NV12).
-/

namespace ProgrammingPath.Ffmpeg

open ProgrammingPath.Lib

/-- `AVFrame`, as far as the functions look at it. -/
structure AVFrame where
  width : Nat
  height : Nat
  linesize : Fin 3 → Nat
  data : Fin 3 → Mem

/-! ## The functions -/

/-- The loop over the rows of the luma plane. -/
def copyRows (src : Mem) (linesize width : Nat) : Nat → Int → Int → Mem → Mem
  | 0, _, _, buff => buff
  | rows + 1, srcY, dstY, buff =>
    copyRows src linesize width rows (srcY + linesize) (dstY + width)
      (buff.write dstY (src.bytes srcY width))

/-- The loop over the rows of both chroma planes. -/
def copyChroma (f : AVFrame) : Nat → Int → Int → Int → Int → Mem → Mem
  | 0, _, _, _, _, buff => buff
  | rows + 1, srcU, srcV, dstU, dstV, buff =>
    copyChroma f rows (srcU + f.linesize 1) (srcV + f.linesize 2) (dstU + (f.width / 2 : Nat))
      (dstV + (f.width / 2 : Nat))
      ((buff.write dstU ((f.data 1).bytes srcU (f.width / 2))).write dstV
        ((f.data 2).bytes srcV (f.width / 2)))

/-- `AVFrame_yuv420_to_buff`. The number of samples is of type `int`. -/
def AVFrame.yuv420ToBuff (f : AVFrame) (buff : Mem) : Option Mem :=
  if f.height * f.width < 2 ^ 31 then
    let buff := copyRows (f.data 0) (f.linesize 0) f.width f.height 0 0 buff
    let dstU : Int := (f.height * f.width : Nat)
    let dstV : Int := dstU + (f.height * f.width / 4 : Nat)
    some (copyChroma f (f.height / 2) 0 0 dstU dstV buff)
  else none

/-- The inner loop of `AVFrame_yuv420_to_nv12_buff`. -/
def mergeRow (srcU srcV : Mem) (offU offV : Int) : Nat → Nat → Int → Mem → Mem
  | 0, _, _, buff => buff
  | cols + 1, u_w, dstNV, buff =>
    mergeRow srcU srcV offU offV cols (u_w + 1) (dstNV + 2)
      ((buff.write dstNV [srcU (offU + u_w)]).write (dstNV + 1) [srcV (offV + u_w)])

/-- Its loop over the rows of both chroma planes. -/
def mergeChroma (f : AVFrame) : Nat → Int → Int → Int → Mem → Mem
  | 0, _, _, _, buff => buff
  | rows + 1, srcU, srcV, dstNV, buff =>
    mergeChroma f rows (srcU + f.linesize 1) (srcV + f.linesize 2) (dstNV + 2 * (f.width / 2 : Nat))
      (mergeRow (f.data 1) (f.data 2) srcU srcV (f.width / 2) 0 dstNV buff)

/-- `AVFrame_yuv420_to_nv12_buff`. -/
def AVFrame.yuv420ToNv12Buff (f : AVFrame) (buff : Mem) : Option Mem :=
  if f.width * f.height < 2 ^ 31 then
    let buff := copyRows (f.data 0) (f.linesize 0) f.width f.height 0 0 buff
    some (mergeChroma f (f.height / 2) 0 0 (f.width * f.height : Nat) buff)
  else none

/-- The second loop of `AVFrame_nv12_to_yuv420_buff`, from `i` on. -/
def splitChroma (src : Mem) : Nat → Nat → Int → Int → Mem → Mem
  | 0, _, _, _, buff => buff
  | turns + 1, i, pU, pV, buff =>
    if i % 2 = 0 then splitChroma src turns (i + 1) (pU + 1) pV (buff.write pU [src i])
    else splitChroma src turns (i + 1) pU (pV + 1) (buff.write pV [src i])

/-- `AVFrame_nv12_to_yuv420_buff`. -/
def AVFrame.nv12ToYuv420Buff (f : AVFrame) (buff : Mem) : Option Mem :=
  if f.width * f.height < 2 ^ 31 then
    let pU : Int := (f.width * f.height : Nat)
    let pV : Int := pU + (f.width * f.height / 4 : Nat)
    let buff := copyRows (f.data 0) (f.linesize 0) f.width f.height 0 0 buff
    some (splitChroma (f.data 1) (f.width * f.height / 2) 0 pU pV buff)
  else none

/-! ## Pictures -/

/-- The samples of a picture, by row and column. -/
structure Picture where
  width : Nat
  height : Nat
  y : Nat → Nat → UInt8
  u : Nat → Nat → UInt8
  v : Nat → Nat → UInt8

namespace Picture

variable (p : Picture)

def luma : List UInt8 := rowMajor p.height p.width p.y

/-- One plane behind the other. -/
def planar : List UInt8 :=
  p.luma ++ (rowMajor (p.height / 2) (p.width / 2) p.u ++ rowMajor (p.height / 2) (p.width / 2) p.v)

/-- Luma, and then chroma with `U` and `V` in turn. -/
def interleaved : List UInt8 :=
  p.luma ++ rowMajor (p.height / 2) p.width fun r c => if c % 2 = 0 then p.u r (c / 2) else p.v r (c / 2)

end Picture

/-- A plane with rows so many bytes apart. -/
def sample (m : Mem) (linesize r c : Nat) : UInt8 := m (r * linesize + c : Nat)

/-- The picture in a frame with three planes. -/
def AVFrame.yuv420 (f : AVFrame) : Picture where
  width := f.width
  height := f.height
  y := sample (f.data 0) (f.linesize 0)
  u := sample (f.data 1) (f.linesize 1)
  v := sample (f.data 2) (f.linesize 2)

/-- The picture in a frame with luma and one plane for both kinds of chroma. -/
def AVFrame.nv12 (f : AVFrame) : Picture where
  width := f.width
  height := f.height
  y := sample (f.data 0) (f.linesize 0)
  u r c := sample (f.data 1) (f.linesize 1) r (2 * c)
  v r c := sample (f.data 1) (f.linesize 1) r (2 * c + 1)

section

variable {f : AVFrame} {src srcU srcV : Mem} {linesize width rows cols n k : Nat} {off off' dst dst' : Int}
  {buff : Mem} {bs bs' : List UInt8}

/-! ## What the loops write -/

/-- The rows from an offset on. -/
theorem rowMajor_bytes_succ (src : Mem) (off : Int) :
    rowMajor (n + 1) k (fun r c => src (off + (r * linesize + c : Nat))) =
      src.bytes off k ++ rowMajor n k fun r c => src (off + linesize + (r * linesize + c : Nat)) := by
  rw [rowMajor_succ, Mem.bytes]
  congr 1
  · apply List.map_congr_left
    intro c _
    rw [Nat.zero_mul, Nat.zero_add]
  · congr 1
    funext r c
    congr 1
    push_cast
    ring

theorem copyRows_eq (src : Mem) (linesize width rows : Nat) (off dst : Int) (buff : Mem) :
    copyRows src linesize width rows off dst buff =
      buff.write dst (rowMajor rows width fun r c => src (off + (r * linesize + c : Nat))) := by
  induction rows generalizing off dst buff with
  | zero => rw [copyRows, rowMajor_zero, Mem.write_nil]
  | succ rows ih =>
    rw [copyRows, ih, rowMajor_bytes_succ, Mem.write_write _ _ (by rw [Mem.length_bytes])]

theorem copyChroma_eq (f : AVFrame) (rows : Nat) (srcU srcV : Int) {dstU dstV : Int} (buff : Mem)
    (hplace : dstU + (rows * (f.width / 2) : Nat) ≤ dstV) :
    copyChroma f rows srcU srcV dstU dstV buff =
      (buff.write dstU
        (rowMajor rows (f.width / 2) fun r c => f.data 1 (srcU + (r * f.linesize 1 + c : Nat)))).write dstV
        (rowMajor rows (f.width / 2) fun r c => f.data 2 (srcV + (r * f.linesize 2 + c : Nat))) := by
  induction rows generalizing srcU srcV dstU dstV buff with
  | zero => rw [copyChroma, rowMajor_zero, rowMajor_zero, Mem.write_nil, Mem.write_nil]
  | succ rows ih =>
    have hfirst : ((f.data 1).bytes srcU (f.width / 2)).length = f.width / 2 := Mem.length_bytes _
    have hsecond : ((f.data 2).bytes srcV (f.width / 2)).length = f.width / 2 := Mem.length_bytes _
    rw [Nat.succ_mul] at hplace
    rw [copyChroma, ih _ _ _ (by push_cast at hplace ⊢; omega), rowMajor_bytes_succ, rowMajor_bytes_succ,
      ← Mem.write_turns, hfirst, hsecond]
    rw [hfirst, length_rowMajor]
    push_cast at hplace ⊢
    omega

/-- A row with `U` and `V` in turn. -/
theorem range_pairs (n : Nat) (a b : Nat → UInt8) :
    ((List.range (2 * n)).map fun c => if c % 2 = 0 then a (c / 2) else b (c / 2)) =
      (List.range n).flatMap fun c => [a c, b c] := by
  induction n with
  | zero => rfl
  | succ n ih =>
    have heven : 2 * n % 2 = 0 ∧ 2 * n / 2 = n := by omega
    have hodd : ¬(2 * n + 1) % 2 = 0 ∧ (2 * n + 1) / 2 = n := by omega
    rw [Nat.mul_succ, List.range_succ, List.range_succ, List.range_succ, List.map_append, List.map_append, ih,
      List.flatMap_append]
    simp only [List.map_cons, List.map_nil, List.flatMap_cons, List.flatMap_nil, heven, hodd, if_true,
      if_false, List.append_nil, List.append_assoc, List.cons_append, List.nil_append]

theorem mergeRow_eq (srcU srcV : Mem) (offU offV : Int) (cols u_w : Nat) (dst : Int) (buff : Mem) :
    mergeRow srcU srcV offU offV cols u_w dst buff =
      buff.write dst ((List.range (2 * cols)).map fun c =>
        if c % 2 = 0 then srcU (offU + (u_w + c / 2 : Nat)) else srcV (offV + (u_w + c / 2 : Nat))) := by
  rw [range_pairs cols (fun c => srcU (offU + (u_w + c : Nat))) fun c => srcV (offV + (u_w + c : Nat))]
  induction cols generalizing u_w dst buff with
  | zero => rw [mergeRow, List.range_zero, List.flatMap_nil, Mem.write_nil]
  | succ cols ih =>
    have hnext : ((List.range cols).flatMap fun c => [srcU (offU + (u_w + 1 + c : Nat)),
        srcV (offV + (u_w + 1 + c : Nat))]) = (List.range cols).flatMap fun c =>
          [srcU (offU + (u_w + c.succ : Nat)), srcV (offV + (u_w + c.succ : Nat))] := by
      apply List.flatMap_congr
      intro c _
      rw [Nat.succ_eq_add_one, Nat.add_assoc, Nat.add_comm 1 c]
    rw [mergeRow, ih, hnext, Mem.write_write _ _ (by simp only [List.length_cons, List.length_nil]; omega),
      Mem.write_write _ _ (by simp only [List.length_cons, List.length_nil]; omega),
      List.range_succ_eq_map, List.flatMap_cons, List.flatMap_map, Nat.add_zero]
    rfl

theorem mergeChroma_eq (f : AVFrame) (rows : Nat) (srcU srcV dst : Int) (buff : Mem) :
    mergeChroma f rows srcU srcV dst buff =
      buff.write dst (rowMajor rows (2 * (f.width / 2)) fun r c =>
        if c % 2 = 0 then f.data 1 (srcU + (r * f.linesize 1 + c / 2 : Nat))
        else f.data 2 (srcV + (r * f.linesize 2 + c / 2 : Nat))) := by
  induction rows generalizing srcU srcV dst buff with
  | zero => rw [mergeChroma, rowMajor_zero, Mem.write_nil]
  | succ rows ih =>
    rw [mergeChroma, ih, mergeRow_eq, rowMajor_succ, Mem.write_write _ _ (by simp)]
    congr 2
    · apply List.map_congr_left
      intro c _
      simp only [Nat.zero_mul, Nat.zero_add]
    · congr 1
      funext r c
      split
      · congr 1
        push_cast
        ring
      · congr 1
        push_cast
        ring

theorem splitChroma_eq (src : Mem) (turns i : Nat) {pU pV : Int} (buff : Mem)
    (hplace : pU + turns ≤ pV) :
    splitChroma src (2 * turns) (2 * i) pU pV buff =
      (buff.write pU ((List.range turns).map fun j => src (2 * (i + j) : Nat))).write pV
        ((List.range turns).map fun j => src (2 * (i + j) + 1 : Nat)) := by
  induction turns generalizing i pU pV buff with
  | zero => rw [Nat.mul_zero, splitChroma, List.range_zero, List.map_nil, List.map_nil, Mem.write_nil, Mem.write_nil]
  | succ turns ih =>
    have heven : 2 * i % 2 = 0 := by omega
    have hodd : ¬(2 * i + 1) % 2 = 0 := by omega
    have hmap (d : Nat) : ((List.range (turns + 1)).map fun j => src (2 * (i + j) + d : Nat)) =
        [src (2 * i + d : Nat)] ++ (List.range turns).map fun j => src (2 * (i + 1 + j) + d : Nat) := by
      rw [List.range_succ_eq_map, List.map_cons, List.map_map, Nat.add_zero, List.singleton_append]
      congr 1
      apply List.map_congr_left
      intro j _
      show src (2 * (i + j.succ) + d : Nat) = src (2 * (i + 1 + j) + d : Nat)
      rw [Nat.succ_eq_add_one, Nat.add_assoc i 1 j, Nat.add_comm 1 j]
    have hfirst := hmap 0
    simp only [Nat.add_zero] at hfirst
    rw [Nat.mul_succ, splitChroma, if_pos heven, splitChroma, if_neg hodd,
      show 2 * i + 1 + 1 = 2 * (i + 1) from rfl, ih (i + 1) _ (by push_cast at hplace ⊢; omega), hfirst, hmap 1,
      ← Mem.write_turns]
    · rfl
    · rw [List.length_map, List.length_range]
      push_cast at hplace ⊢
      simp only [List.length_singleton]
      omega

/-! ## What the functions write -/

/-- A quarter of the samples of a picture with even sides. -/
theorem quarter {w h : Nat} (hw : w % 2 = 0) (hh : h % 2 = 0) : h / 2 * (w / 2) = h * w / 4 := by
  obtain ⟨a, rfl⟩ := Nat.dvd_of_mod_eq_zero hw
  obtain ⟨b, rfl⟩ := Nat.dvd_of_mod_eq_zero hh
  rw [Nat.mul_div_cancel_left a (by decide), Nat.mul_div_cancel_left b (by decide),
    show 2 * b * (2 * a) = b * a * 4 by ring, Nat.mul_div_cancel _ (by decide)]

theorem copyRows_luma (f : AVFrame) (buff : Mem) :
    copyRows (f.data 0) (f.linesize 0) f.width f.height 0 0 buff =
      buff.write 0 (rowMajor f.height f.width (sample (f.data 0) (f.linesize 0))) := by
  rw [copyRows_eq]
  congr 2
  funext r c
  rw [sample, Int.zero_add]

/-- The samples come plane by plane. -/
theorem yuv420ToBuff_eq (hw : f.width % 2 = 0) (hh : f.height % 2 = 0)
    (hint : f.height * f.width < 2 ^ 31) (buff : Mem) :
    f.yuv420ToBuff buff = some (buff.write 0 f.yuv420.planar) := by
  have hquarter := quarter hw hh
  have hcell (i : Fin 3) : (fun r c => f.data i (0 + (r * f.linesize i + c : Nat))) =
      sample (f.data i) (f.linesize i) := by
    funext r c
    rw [sample, Int.zero_add]
  rw [AVFrame.yuv420ToBuff, if_pos hint]
  simp only
  rw [copyRows_luma, copyChroma_eq _ _ _ _ _ (by rw [hquarter]), hcell 1, hcell 2,
    Mem.write_write _ _ (by rw [length_rowMajor, hquarter]),
    Mem.write_write _ _ (by rw [length_rowMajor, Int.zero_add])]
  rfl

/-- The samples come with `U` and `V` in turn. -/
theorem yuv420ToNv12Buff_eq (hw : f.width % 2 = 0) (hint : f.width * f.height < 2 ^ 31) (buff : Mem) :
    f.yuv420ToNv12Buff buff = some (buff.write 0 f.yuv420.interleaved) := by
  have htwo : 2 * (f.width / 2) = f.width := by omega
  rw [AVFrame.yuv420ToNv12Buff, if_pos hint]
  simp only
  rw [copyRows_luma, mergeChroma_eq, htwo, Mem.write_write _ _
    (by rw [length_rowMajor, Int.zero_add, Nat.mul_comm])]
  congr 3
  show _ = rowMajor _ _ _
  congr 1
  funext r c
  rw [Int.zero_add, Int.zero_add]
  rfl

/-- The frame as if the rows of its chroma plane had no gap between them. -/
def AVFrame.gapless (f : AVFrame) : AVFrame :=
  { f with linesize := fun i => if i = 1 then f.width else f.linesize i }

/-- The samples come plane by plane, those of chroma from places as if there were no gap. -/
theorem nv12ToYuv420Buff_eq (hw : f.width % 2 = 0) (hh : f.height % 2 = 0)
    (hint : f.width * f.height < 2 ^ 31) (buff : Mem) :
    f.nv12ToYuv420Buff buff = some (buff.write 0 f.gapless.nv12.planar) := by
  have hquarter : f.height / 2 * (f.width / 2) = f.width * f.height / 4 := by
    rw [quarter hw hh, Nat.mul_comm]
  have hturns : f.width * f.height / 2 = 2 * (f.width * f.height / 4) := by
    rw [← hquarter]
    obtain ⟨a, ha⟩ := Nat.dvd_of_mod_eq_zero hw
    obtain ⟨b, hb⟩ := Nat.dvd_of_mod_eq_zero hh
    rw [ha, hb, Nat.mul_div_cancel_left a (by decide), Nat.mul_div_cancel_left b (by decide),
      show 2 * a * (2 * b) = 2 * (b * a) * 2 by ring, Nat.mul_div_cancel _ (by decide)]
  have hplane (d : Nat) : ((List.range (f.width * f.height / 4)).map fun j =>
      f.data 1 (2 * (0 + j) + d : Nat)) =
      rowMajor (f.height / 2) (f.width / 2) fun r c => sample (f.data 1) f.width r (2 * c + d) := by
    rw [← hquarter, ← rowMajor_consecutive]
    congr 1
    funext r c
    rw [sample]
    congr 2
    have htwo : 2 * (f.width / 2) = f.width := by omega
    calc 2 * (0 + (r * (f.width / 2) + c)) + d = r * (2 * (f.width / 2)) + (2 * c + d) := by ring
      _ = r * f.width + (2 * c + d) := by rw [htwo]
  have hu := hplane 0
  simp only [Nat.add_zero] at hu
  rw [AVFrame.nv12ToYuv420Buff, if_pos hint]
  simp only
  rw [copyRows_luma, hturns, show (0 : Nat) = 2 * 0 from rfl, splitChroma_eq _ _ _ _ (Int.le_refl _), hu,
    hplane 1, Mem.write_write _ _ (by rw [length_rowMajor, hquarter]),
    Mem.write_write _ _ (by rw [length_rowMajor, Int.zero_add, Nat.mul_comm])]
  rfl

end

/-! ## The bytes and the picture -/

section

variable {w h : Nat} {ls ls' : Fin 3 → Nat} {f g : AVFrame} {buff out : Mem} {bs bs' : List UInt8}

/-- So many bytes are filled with these, and no others change. -/
def Fills (out : Option Mem) (buff : Mem) (n : Nat) (bs : List UInt8) : Prop :=
  bs.length = n ∧ out = some (buff.write 0 bs)

/-- `AVFrame_yuv420_to_buff` gives the samples of each such frame plane by plane. -/
def PlanarRight (w h : Nat) (ls : Fin 3 → Nat) : Prop :=
  ∀ data buff, let f : AVFrame := ⟨w, h, ls, data⟩
    Fills (f.yuv420ToBuff buff) buff (w * h * 3 / 2) f.yuv420.planar

/-- `AVFrame_yuv420_to_nv12_buff` gives them with `U` and `V` in turn. -/
def InterleavedRight (w h : Nat) (ls : Fin 3 → Nat) : Prop :=
  ∀ data buff, let f : AVFrame := ⟨w, h, ls, data⟩
    Fills (f.yuv420ToNv12Buff buff) buff (w * h * 3 / 2) f.yuv420.interleaved

/-- `AVFrame_nv12_to_yuv420_buff` gives the samples of each such frame plane by plane. -/
def SeparatedRight (w h : Nat) (ls : Fin 3 → Nat) : Prop :=
  ∀ data buff, let f : AVFrame := ⟨w, h, ls, data⟩
    Fills (f.nv12ToYuv420Buff buff) buff (w * h * 3 / 2) f.nv12.planar

/-- The rows of a frame hold the bytes of a packed picture. -/
structure AVFrame.Views (g : AVFrame) (out : Mem) : Prop where
  luma : ∀ r < g.height, ∀ c < g.width, sample (g.data 0) (g.linesize 0) r c = out (r * g.width + c : Nat)
  chroma : ∀ r < g.height / 2, ∀ c < g.width,
    sample (g.data 1) (g.linesize 1) r c = out (g.width * g.height + (r * g.width + c) : Nat)

/-- There and back is the same as the direct way, whatever the frame between them has at the ends of its rows. -/
def RoundTripRight (w h : Nat) (ls ls' : Fin 3 → Nat) : Prop :=
  ∀ data buff, let f : AVFrame := ⟨w, h, ls, data⟩
    ∃ out, f.yuv420ToNv12Buff buff = some out ∧
      ∀ data' buff', let g : AVFrame := ⟨w, h, ls', data'⟩
        g.Views out → ∃ res, g.nv12ToYuv420Buff buff' = some res ∧ f.yuv420ToBuff buff' = some res

/-- No row of the chroma plane is looked for in a wrong place. -/
def Gapless (w h : Nat) (ls : Fin 3 → Nat) : Prop := ls 1 = w ∨ h ≤ 2 ∨ w = 0

instance : Decidable (Gapless w h ls) := inferInstanceAs (Decidable (_ ∨ _ ∨ _))

theorem length_planar (hw : w % 2 = 0) (hh : h % 2 = 0) (p : Picture) (hpw : p.width = w) (hph : p.height = h) :
    p.planar.length = w * h * 3 / 2 := by
  subst hpw hph
  obtain ⟨a, ha⟩ := Nat.dvd_of_mod_eq_zero hw
  obtain ⟨b, hb⟩ := Nat.dvd_of_mod_eq_zero hh
  rw [Picture.planar, Picture.luma, List.length_append, List.length_append, length_rowMajor, length_rowMajor,
    length_rowMajor, ha, hb, Nat.mul_div_cancel_left a (by decide), Nat.mul_div_cancel_left b (by decide),
    show 2 * a * (2 * b) * 3 = 2 * (6 * (a * b)) by ring, Nat.mul_div_cancel_left _ (by decide)]
  ring

theorem length_interleaved (hh : h % 2 = 0) (p : Picture) (hpw : p.width = w) (hph : p.height = h) :
    p.interleaved.length = w * h * 3 / 2 := by
  subst hpw hph
  obtain ⟨b, hb⟩ := Nat.dvd_of_mod_eq_zero hh
  rw [Picture.interleaved, Picture.luma, List.length_append, length_rowMajor, length_rowMajor, hb,
    Nat.mul_div_cancel_left b (by decide), show p.width * (2 * b) * 3 = 2 * (3 * (p.width * b)) by ring,
    Nat.mul_div_cancel_left _ (by decide)]
  ring

/-- Without gaps the function finds each sample. -/
theorem gapless_planar (hw : f.width % 2 = 0) (hgap : Gapless f.width f.height f.linesize) :
    f.gapless.nv12.planar = f.nv12.planar := by
  have hcell (d : Nat) (hd : d < 2) : rowMajor (f.height / 2) (f.width / 2)
      (fun r c => sample (f.data 1) f.width r (2 * c + d)) = rowMajor (f.height / 2) (f.width / 2)
        fun r c => sample (f.data 1) (f.linesize 1) r (2 * c + d) := by
    rw [rowMajor_inj]
    intro r hr c hc
    rw [sample, sample]
    obtain hsame | hlow | hempty := hgap
    · rw [hsame]
    · have hr0 : r = 0 := by omega
      rw [hr0, Nat.zero_mul, Nat.zero_mul]
    · omega
  have hu := hcell 0 (by omega)
  have hv := hcell 1 (by omega)
  show _ ++ (_ ++ _) = _ ++ (_ ++ _)
  congr 1
  exact congrArg₂ _ hu hv

/-- The cells of luma in the bytes of a packed picture. -/
theorem interleaved_luma (p : Picture) {r c : Nat} (hr : r < p.height) (hc : c < p.width) :
    buff.write 0 p.interleaved (r * p.width + c : Nat) = p.y r c := by
  have hin : r * p.width + c < p.luma.length := by
    rw [Picture.luma, length_rowMajor]
    calc r * p.width + c < (r + 1) * p.width := by rw [Nat.succ_mul]; omega
      _ ≤ p.height * p.width := Nat.mul_le_mul_right _ hr
  have hlen : p.luma.length ≤ p.interleaved.length := by
    rw [Picture.interleaved, List.length_append]
    exact Nat.le_add_right _ _
  rw [Mem.write_getD (by omega), Picture.interleaved, List.getD_append _ _ _ _ hin, Picture.luma,
    rowMajor_getD 0 hr hc]

/-- Its cells of chroma. -/
theorem interleaved_chroma (p : Picture) {r c : Nat} (hr : r < p.height / 2) (hc : c < p.width) :
    buff.write 0 p.interleaved (p.width * p.height + (r * p.width + c) : Nat) =
      if c % 2 = 0 then p.u r (c / 2) else p.v r (c / 2) := by
  have hluma : p.luma.length = p.width * p.height := by rw [Picture.luma, length_rowMajor, Nat.mul_comm]
  have hin : r * p.width + c < p.height / 2 * p.width := by
    calc r * p.width + c < (r + 1) * p.width := by rw [Nat.succ_mul]; omega
      _ ≤ p.height / 2 * p.width := Nat.mul_le_mul_right _ hr
  have hlen : p.interleaved.length = p.width * p.height + p.height / 2 * p.width := by
    rw [Picture.interleaved, List.length_append, hluma, length_rowMajor]
  rw [Mem.write_getD (by omega), Picture.interleaved, List.getD_append_right _ _ _ _ (by omega), hluma,
    Nat.add_sub_cancel_left, rowMajor_getD 0 hr hc]

/-- The frame between there and back has the samples of the first. -/
theorem planar_eq_of_views {data data' : Fin 3 → Mem}
    (hview : AVFrame.Views ⟨w, h, ls', data'⟩ (buff.write 0 (AVFrame.yuv420 ⟨w, h, ls, data⟩).interleaved)) :
    (AVFrame.nv12 ⟨w, h, ls', data'⟩).planar = (AVFrame.yuv420 ⟨w, h, ls, data⟩).planar := by
  let f : AVFrame := ⟨w, h, ls, data⟩
  have hy : (AVFrame.nv12 ⟨w, h, ls', data'⟩).luma = f.yuv420.luma := by
    rw [Picture.luma, Picture.luma]
    apply rowMajor_inj.mpr
    intro r hr c hc
    exact (hview.luma r hr c hc).trans (interleaved_luma f.yuv420 hr hc)
  have hu : rowMajor (h / 2) (w / 2) (AVFrame.nv12 ⟨w, h, ls', data'⟩).u =
      rowMajor (h / 2) (w / 2) f.yuv420.u := by
    apply rowMajor_inj.mpr
    intro r hr c hc
    have hcell := (hview.chroma r hr (2 * c) (by show 2 * c < w; omega)).trans
      (interleaved_chroma f.yuv420 hr (by show 2 * c < w; omega))
    rwa [if_pos (by omega), show 2 * c / 2 = c by omega] at hcell
  have hv : rowMajor (h / 2) (w / 2) (AVFrame.nv12 ⟨w, h, ls', data'⟩).v =
      rowMajor (h / 2) (w / 2) f.yuv420.v := by
    apply rowMajor_inj.mpr
    intro r hr c hc
    have hcell := (hview.chroma r hr (2 * c + 1) (by show 2 * c + 1 < w; omega)).trans
      (interleaved_chroma f.yuv420 hr (by show 2 * c + 1 < w; omega))
    rwa [if_neg (by omega), show (2 * c + 1) / 2 = c by omega] at hcell
  rw [Picture.planar, Picture.planar, hy]
  congr 1
  exact congrArg₂ _ hu hv

/-! ## Where a gap is taken for samples -/

/-- A chroma plane that is zero except for the first byte behind the samples of its first row. -/
def behindFirstRow (w : Nat) : Mem := fun i => if i = w then 1 else 0

/-- A frame with nothing but zeros as samples. -/
def blankData (w : Nat) : Fin 3 → Mem := fun i => if i = 1 then behindFirstRow w else Mem.zero

theorem sample_behindFirstRow {l r c : Nat} (hl : w < l) (hc : c < w) : sample (behindFirstRow w) l r c = 0 := by
  apply if_neg
  cases r with
  | zero => omega
  | succ r =>
    have hrow : l ≤ (r + 1) * l := Nat.le_mul_of_pos_left l (Nat.succ_pos r)
    omega

/-- What the function gives for it is not blank. -/
theorem gapless_planar_blank (hw : w % 2 = 0) (hh : h % 2 = 0) (hgap : ¬Gapless w h ls') {p : Picture}
    (hpw : p.width = w) (hph : p.height = h) (hpu : p.u 1 0 = 0) :
    (AVFrame.gapless ⟨w, h, ls', blankData w⟩).nv12.planar ≠ p.planar := by
  intro heq
  rw [Gapless, not_or, not_or] at hgap
  have hrest := (List.append_inj heq (by
    rw [Picture.luma, Picture.luma, length_rowMajor, length_rowMajor, hpw, hph]
    rfl)).2
  have hu := (List.append_inj hrest (by rw [length_rowMajor, length_rowMajor, hpw, hph]; rfl)).1
  rw [hpw, hph] at hu
  have hcell := rowMajor_inj.mp hu 1 (by show 1 < h / 2; omega) 0 (by show 0 < w / 2; omega)
  rw [hpu] at hcell
  have hone : (AVFrame.gapless ⟨w, h, ls', blankData w⟩).nv12.u 1 0 = 1 := by
    show behindFirstRow w (1 * w + 2 * 0 : Nat) = 1
    rw [behindFirstRow, if_pos (by omega)]
  rw [hone] at hcell
  exact absurd hcell (by decide)

/-! ## When the functions give the samples -/

theorem planarRight_iff (hw : w % 2 = 0) (hh : h % 2 = 0) : PlanarRight w h ls ↔ w * h < 2 ^ 31 := by
  constructor
  · intro hright
    by_contra hbig
    have hnone := (hright (fun _ => Mem.zero) Mem.zero).2
    rw [AVFrame.yuv420ToBuff, if_neg (by rwa [Nat.mul_comm])] at hnone
    cases hnone
  · intro hint data buff
    exact ⟨length_planar hw hh _ rfl rfl, yuv420ToBuff_eq hw hh (by rwa [Nat.mul_comm]) buff⟩

theorem interleavedRight_iff (hw : w % 2 = 0) (hh : h % 2 = 0) : InterleavedRight w h ls ↔ w * h < 2 ^ 31 := by
  constructor
  · intro hright
    by_contra hbig
    have hnone := (hright (fun _ => Mem.zero) Mem.zero).2
    rw [AVFrame.yuv420ToNv12Buff, if_neg hbig] at hnone
    cases hnone
  · intro hint data buff
    exact ⟨length_interleaved hh _ rfl rfl, yuv420ToNv12Buff_eq hw hint buff⟩

theorem separatedRight_iff (hw : w % 2 = 0) (hh : h % 2 = 0) (hls : w ≤ ls' 1) :
    SeparatedRight w h ls' ↔ w * h < 2 ^ 31 ∧ Gapless w h ls' := by
  constructor
  · intro hright
    have hblank := (hright (blankData w) Mem.zero).2
    have hint : w * h < 2 ^ 31 := by
      by_contra hbig
      rw [AVFrame.nv12ToYuv420Buff, if_neg hbig] at hblank
      cases hblank
    refine ⟨hint, Decidable.byContradiction fun hgap => ?_⟩
    rw [nv12ToYuv420Buff_eq hw hh hint, Option.some_inj] at hblank
    have heq := Mem.write_inj ((length_planar hw hh _ rfl rfl).trans (length_planar hw hh _ rfl rfl).symm) hblank
    refine gapless_planar_blank hw hh hgap rfl rfl ?_ heq
    rw [Gapless, not_or, not_or] at hgap
    exact sample_behindFirstRow (by show w < ls' 1; omega) (by omega)
  · rintro ⟨hint, hgap⟩ data buff
    refine ⟨length_planar hw hh _ rfl rfl, ?_⟩
    rw [nv12ToYuv420Buff_eq hw hh hint, gapless_planar hw hgap]

theorem roundTripRight_iff (hw : w % 2 = 0) (hh : h % 2 = 0) (hls : w ≤ ls' 1) :
    RoundTripRight w h ls ls' ↔ w * h < 2 ^ 31 ∧ Gapless w h ls' := by
  constructor
  · intro hright
    obtain ⟨out, hout, hback⟩ := hright (fun _ => Mem.zero) Mem.zero
    have hint : w * h < 2 ^ 31 := by
      by_contra hbig
      rw [AVFrame.yuv420ToNv12Buff, if_neg hbig] at hout
      cases hout
    refine ⟨hint, Decidable.byContradiction fun hgap => ?_⟩
    have hgaps := hgap
    rw [Gapless, not_or, not_or] at hgaps
    rw [yuv420ToNv12Buff_eq hw hint, Option.some_inj] at hout
    have hview : AVFrame.Views ⟨w, h, ls', blankData w⟩ out := by
      subst hout
      constructor
      · intro r hr c hc
        exact (interleaved_luma (AVFrame.yuv420 ⟨w, h, ls, fun _ => Mem.zero⟩) hr hc).symm
      · intro r hr c hc
        refine (sample_behindFirstRow (by show w < ls' 1; omega) hc).trans ?_
        refine Eq.trans ?_ (interleaved_chroma (AVFrame.yuv420 ⟨w, h, ls, fun _ => Mem.zero⟩) hr hc).symm
        split
        · rfl
        · rfl
    obtain ⟨res, hres, hdirect⟩ := hback (blankData w) Mem.zero hview
    rw [nv12ToYuv420Buff_eq hw hh hint, Option.some_inj] at hres
    rw [yuv420ToBuff_eq hw hh (by show h * w < _; rwa [Nat.mul_comm]), Option.some_inj] at hdirect
    have heq := Mem.write_inj ((length_planar hw hh _ rfl rfl).trans (length_planar hw hh _ rfl rfl).symm)
      (hres.trans hdirect.symm)
    exact gapless_planar_blank hw hh hgap rfl rfl rfl heq
  · rintro ⟨hint, hgap⟩ data buff
    refine ⟨_, yuv420ToNv12Buff_eq hw hint buff, fun data' buff' hview =>
      ⟨buff'.write 0 (AVFrame.yuv420 ⟨w, h, ls, data⟩).planar, ?_, ?_⟩⟩
    · rw [nv12ToYuv420Buff_eq hw hh hint, gapless_planar hw hgap, planar_eq_of_views hview]
    · exact yuv420ToBuff_eq hw hh (by show h * w < _; rwa [Nat.mul_comm]) buff'

/-- All three functions give the samples, and there and back is the direct way, just when the number of samples is
an `int` and the chroma plane of the frame between has no gap that matters. -/
theorem converts_iff (hw : w % 2 = 0) (hh : h % 2 = 0) (hls : w ≤ ls' 1) :
    (PlanarRight w h ls ↔ w * h < 2 ^ 31) ∧ (InterleavedRight w h ls ↔ w * h < 2 ^ 31) ∧
      (SeparatedRight w h ls' ↔ w * h < 2 ^ 31 ∧ Gapless w h ls') ∧
      (RoundTripRight w h ls ls' ↔ w * h < 2 ^ 31 ∧ Gapless w h ls') :=
  ⟨planarRight_iff hw hh, interleavedRight_iff hw hh, separatedRight_iff hw hh hls,
    roundTripRight_iff hw hh hls⟩

/-- A frame of four by four with two bytes behind each row of its chroma plane. -/
theorem converts_four :
    (PlanarRight 4 4 (fun _ => 4) ↔ 4 * 4 < 2 ^ 31) ∧ (InterleavedRight 4 4 (fun _ => 4) ↔ 4 * 4 < 2 ^ 31) ∧
      (SeparatedRight 4 4 (fun _ => 6) ↔ 4 * 4 < 2 ^ 31 ∧ Gapless 4 4 fun _ => 6) ∧
      (RoundTripRight 4 4 (fun _ => 4) (fun _ => 6) ↔ 4 * 4 < 2 ^ 31 ∧ Gapless 4 4 fun _ => 6) :=
  converts_iff (by decide) (by decide) (by decide)

/-- There the chroma comes from wrong places. -/
theorem not_separated_gap : ¬SeparatedRight 4 4 fun _ => 6 :=
  fun hright => absurd ((separatedRight_iff (by decide) (by decide) (by decide)).mp hright).2 (by decide)

end

end ProgrammingPath.Ffmpeg
