import LinuxSystemProgramming.Lib.CInt

/-!
`rgb2gray_u8` of the boundary extraction. The image of `w` by `h` pixels is the list of its bytes,
three a pixel, and `bits` is the width of `unsigned long`. A run that computes an `int` out of its
range, or that uses an index outside its array, is an error.
-/

namespace LinuxSystemProgramming.GrayImage

open CMemory

variable {bits : ℕ}

/-- `(uint8_t)((77u*R + 150u*G + 29u*B) >> 8)` -/
def luma (R G B : Byte) : Byte :=
  ((77 * R.toUInt32 + 150 * G.toUInt32 + 29 * B.toUInt32) >>> 8).toUInt8

def three : CInt := CInt.literal 3 (by decide)

def channel (imgRgb : List Byte) (i loc : CInt) : Except Fault Byte := do
  let index ← (← three.mul i).add loc
  CInt.load imgRgb index

def pixel (imgRgb : List Byte) (i : CInt) : Except Fault Byte := do
  let R ← channel imgRgb i (CInt.literal 0 (by decide))
  let G ← channel imgRgb i (CInt.literal 1 (by decide))
  let B ← channel imgRgb i (CInt.literal 2 (by decide))
  return luma R G B

def body (imgRgb imgGray : List Byte) (i : CInt) : Except Fault (List Byte) := do
  let Y ← pixel imgRgb i
  CInt.set imgGray i Y

def loop (imgRgb : List Byte) (n : BitVec bits) (i : CInt) (imgGray : List Byte) :
    Except Fault (List Byte) :=
  if i.toUnsigned bits < n then
    match body imgRgb imgGray i with
    | .error e => .error e
    | .ok imgGray =>
      match hi : i.add (CInt.literal 1 (by decide)) with
      | .error e => .error e
      | .ok i' => loop imgRgb n i' imgGray
  else .ok imgGray
termination_by (intMax - i.value).toNat
decreasing_by
  have hv := CInt.ofInt_eq_ok.mp hi
  have hr := i'.range
  simp only [CInt.literal] at hv
  omega

def rgb2grayU8 (imgRgb imgGray : List Byte) (w h : BitVec bits) : Except Fault (List Byte) :=
  loop imgRgb (w * h) (CInt.literal 0 (by decide)) imgGray

theorem luma_toNat (R G B : Byte) :
    (luma R G B).toNat = (77 * R.toNat + 150 * G.toNat + 29 * B.toNat) / 256 := by
  have hR := R.toNat_lt
  have hG := G.toNat_lt
  have hB := B.toNat_lt
  have hsum : 77 * R.toNat + 150 * G.toNat + 29 * B.toNat ≤ 255 * 256 := by omega
  have hmod : (77 * R.toNat + 150 * G.toNat + 29 * B.toNat) % 4294967296 =
      77 * R.toNat + 150 * G.toNat + 29 * B.toNat := Nat.mod_eq_of_lt (by omega)
  simp only [luma, UInt32.toNat_toUInt8, UInt32.toNat_shiftRight, UInt32.toNat_add,
    UInt32.toNat_mul, UInt8.toNat_toUInt32, UInt32.toNat_ofNat, Nat.shiftRight_eq_div_pow]
  norm_num
  rw [hmod]
  omega

variable {imgRgb imgGray gray : List Byte} {i : CInt} {k l : ℕ}

theorem channel_ok {y : Byte} (hi : i.value = k) (hl : l ≤ intMax) (hk : 3 * k + l ≤ intMax)
    (hy : imgRgb[3 * k + l]? = some y) : channel imgRgb i (CInt.literal l hl) = .ok y := by
  have hmul : three.mul i = .ok (CInt.literal (3 * k) (by omega)) := by
    apply CInt.ofInt_eq_ok.mpr
    simp only [CInt.literal, three, hi]
    omega
  have hadd : (CInt.literal (3 * k) (by omega)).add (CInt.literal l hl) =
      .ok (CInt.literal (3 * k + l) hk) := by
    apply CInt.ofInt_eq_ok.mpr
    simp only [CInt.literal]
    omega
  simp only [channel, hmul, hadd, bind, Except.bind]
  exact CInt.load_ok rfl hy

theorem channel_overflow (hi : i.value = k) (hl : l ≤ intMax) (hk : 3 * k ≤ intMax)
    (h : intMax < 3 * k + l) : channel imgRgb i (CInt.literal l hl) = .error .overflow := by
  have hmul : three.mul i = .ok (CInt.literal (3 * k) hk) := by
    apply CInt.ofInt_eq_ok.mpr
    simp only [CInt.literal, three, hi]
    omega
  have hadd : (CInt.literal (3 * k) hk).add (CInt.literal l hl) = .error .overflow := by
    have hv : ((3 * k : ℕ) : ℤ) + (l : ℤ) = ((3 * k + l : ℕ) : ℤ) := by omega
    rw [CInt.add, CInt.literal, CInt.literal, hv]
    exact CInt.ofInt_overflow h
  simp only [channel, hmul, hadd, bind, Except.bind]

def GrayOf (imgRgb : List Byte) (k : ℕ) (Y : Byte) : Prop :=
  ∃ R G B, imgRgb[3 * k]? = some R ∧ imgRgb[3 * k + 1]? = some G ∧ imgRgb[3 * k + 2]? = some B ∧
    Y.toNat = (77 * R.toNat + 150 * G.toNat + 29 * B.toNat) / 256

theorem pixel_ok (hi : i.value = k) (hk : 3 * k + 2 ≤ intMax) (hlen : 3 * k + 2 < imgRgb.length) :
    ∃ Y, pixel imgRgb i = .ok Y ∧ GrayOf imgRgb k Y := by
  have hR := List.getElem?_eq_getElem (show 3 * k + 0 < imgRgb.length by omega)
  have hG := List.getElem?_eq_getElem (show 3 * k + 1 < imgRgb.length by omega)
  have hB := List.getElem?_eq_getElem hlen
  refine ⟨_, ?_, _, _, _, hR, hG, hB, luma_toNat _ _ _⟩
  have hR' := channel_ok hi (by decide) (show 3 * k + 0 ≤ intMax by omega) hR
  have hG' := channel_ok hi (by decide) (show 3 * k + 1 ≤ intMax by omega) hG
  have hB' := channel_ok hi (by decide) hk hB
  simp only [pixel, hR', hG', hB', bind, Except.bind, pure, Except.pure]

theorem pixel_overflow (hi : i.value = k) (hk : 3 * k + 1 ≤ intMax) (h : intMax < 3 * k + 2)
    (hlen : 3 * k + 1 < imgRgb.length) : pixel imgRgb i = .error .overflow := by
  have hR := List.getElem?_eq_getElem (show 3 * k + 0 < imgRgb.length by omega)
  have hG := List.getElem?_eq_getElem hlen
  have hR' := channel_ok hi (by decide) (show 3 * k + 0 ≤ intMax by omega) hR
  have hG' := channel_ok hi (by decide) hk hG
  have hB' : channel imgRgb i (CInt.literal 2 (by decide)) = .error .overflow :=
    channel_overflow hi (by decide) (by omega) h
  simp only [pixel, hR', hG', hB', bind, Except.bind]

structure Converted (imgRgb imgGray : List Byte) (n : ℕ) (gray : List Byte) : Prop where
  length : gray.length = imgGray.length
  pixels : ∀ k < n, ∃ Y, gray[k]? = some Y ∧ GrayOf imgRgb k Y
  rest : ∀ k, n ≤ k → gray[k]? = imgGray[k]?

theorem Converted.start : Converted imgRgb imgGray 0 imgGray where
  length := rfl
  pixels _ h := absurd h (Nat.not_lt_zero _)
  rest _ _ := rfl

theorem Converted.set {Y : Byte} (h : Converted imgRgb imgGray k gray) (hk : k < imgGray.length)
    (hY : GrayOf imgRgb k Y) : Converted imgRgb imgGray (k + 1) (gray.set k Y) where
  length := by rw [List.length_set, h.length]
  pixels j hj := by
    rcases Nat.lt_succ_iff_lt_or_eq.mp hj with hlt | rfl
    · rw [List.getElem?_set_ne (by omega)]
      exact h.pixels j hlt
    · refine ⟨Y, List.getElem?_set_self ?_, hY⟩
      rw [h.length]
      exact hk
  rest j hj := by
    rw [List.getElem?_set_ne (by omega)]
    exact h.rest j (by omega)

theorem body_ok (hi : i.value = k) (hk : 3 * k + 2 ≤ intMax) (hlen : 3 * k + 2 < imgRgb.length)
    (hroom : k < imgGray.length) (h : Converted imgRgb imgGray k gray) :
    ∃ gray', body imgRgb gray i = .ok gray' ∧ Converted imgRgb imgGray (k + 1) gray' := by
  obtain ⟨Y, hpixel, hY⟩ := pixel_ok hi hk hlen
  refine ⟨gray.set k Y, ?_, h.set hroom hY⟩
  simp only [body, hpixel, bind, Except.bind]
  apply CInt.set_ok hi
  rw [h.length]
  exact hroom

section Loop

variable {n : BitVec bits}

theorem loop_end (h : ¬ i.toUnsigned bits < n) : loop imgRgb n i gray = .ok gray := by
  rw [loop, if_neg h]

theorem loop_error {e : Fault} (h : i.toUnsigned bits < n) (hb : body imgRgb gray i = .error e) :
    loop imgRgb n i gray = .error e := by
  rw [loop, if_pos h, hb]

theorem loop_next {gray' : List Byte} (h : i.toUnsigned bits < n) (hi : i.value = k)
    (hk : k + 1 ≤ intMax) (hb : body imgRgb gray i = .ok gray') :
    loop imgRgb n i gray = loop imgRgb n (CInt.literal (k + 1) hk) gray' := by
  have hadd : i.add (CInt.literal 1 (by decide)) = .ok (CInt.literal (k + 1) hk) := by
    apply CInt.ofInt_eq_ok.mpr
    simp only [CInt.literal, hi]
    omega
  rw [loop, if_pos h, hb]
  dsimp only
  split
  next e he =>
    rw [hadd] at he
    cases he
  next i' he =>
    rw [hadd] at he
    cases he
    rfl

-- The comparison with `n` is one of unsigned numbers.
theorem loop_guard (hi : i.value = k) (hk : k < 2 ^ bits) : i.toUnsigned bits < n ↔ k < n.toNat := by
  rw [BitVec.lt_def, CInt.toUnsigned_toNat hi hk]

variable (hrgb : imgRgb.length = 3 * n.toNat) (hroom : n.toNat ≤ imgGray.length)
include hrgb hroom

theorem loop_ok (hi : i.value = k) (hint : 3 * n.toNat ≤ intMax + 1) (hk : k ≤ n.toNat)
    (h : Converted imgRgb imgGray k gray) :
    ∃ gray', loop imgRgb n i gray = .ok gray' ∧ Converted imgRgb imgGray n.toNat gray' := by
  have hn := n.isLt
  induction hm : n.toNat - k generalizing i k gray with
  | zero =>
    obtain rfl : k = n.toNat := by omega
    exact ⟨gray, loop_end (mt (loop_guard hi hn).mp (lt_irrefl _)), h⟩
  | succ m ih =>
    have hlt : i.toUnsigned bits < n := (loop_guard hi (by omega)).mpr (by omega)
    obtain ⟨gray₁, hb, h₁⟩ := body_ok hi (by omega) (by omega) (by omega) h
    rw [loop_next hlt hi (by omega) hb]
    exact ih rfl (by omega) h₁ (by omega)

theorem loop_overflow (hi : i.value = k) (hint : intMax + 1 < 3 * n.toNat) (hk : 3 * k ≤ intMax)
    (h : Converted imgRgb imgGray k gray) : loop imgRgb n i gray = .error .overflow := by
  have hn := n.isLt
  induction hm : intMax / 3 - k generalizing i k gray with
  | zero =>
    have hlast : k = 715827882 := by
      rw [intMax] at hk hm
      omega
    have hlt : i.toUnsigned bits < n := by
      apply (loop_guard hi _).mpr <;>
      · rw [intMax] at hint
        omega
    apply loop_error hlt
    have hpixel : pixel imgRgb i = .error .overflow := by
      apply pixel_overflow hi <;> rw [intMax] at * <;> omega
    simp only [body, hpixel, bind, Except.bind]
  | succ m ih =>
    have hk' : 3 * (k + 1) ≤ intMax := by omega
    have hlt : i.toUnsigned bits < n := (loop_guard hi (by omega)).mpr (by omega)
    obtain ⟨gray₁, hb, h₁⟩ := body_ok hi (by omega) (by omega) (by omega) h
    rw [loop_next hlt hi (by omega) hb]
    exact ih rfl hk' h₁ (by omega)

end Loop

/-- The function has converted the `w * h` pixels, and every `int` that it has computed is in its
range and every index in its array. -/
def Converts (imgRgb imgGray : List Byte) (w h : BitVec bits) : Prop :=
  ∃ gray, rgb2grayU8 imgRgb imgGray w h = .ok gray ∧
    Converted imgRgb imgGray (w.toNat * h.toNat) gray

theorem product_toNat {w h : BitVec bits} (hsize : 3 * (w.toNat * h.toNat) < 2 ^ bits) :
    (w * h).toNat = w.toNat * h.toNat := by
  rw [BitVec.toNat_mul, Nat.mod_eq_of_lt]
  omega

theorem rgb2gray_overflow {w h : BitVec bits} (hsize : 3 * (w.toNat * h.toNat) < 2 ^ bits)
    (hrgb : imgRgb.length = 3 * (w.toNat * h.toNat)) (hgray : w.toNat * h.toNat ≤ imgGray.length)
    (hlarge : intMax / 3 < w.toNat * h.toNat) :
    rgb2grayU8 imgRgb imgGray w h = .error .overflow := by
  rw [← product_toNat hsize] at hrgb hgray hlarge
  have hint : intMax + 1 < 3 * (w * h).toNat := by
    rw [intMax] at *
    omega
  exact loop_overflow hrgb hgray rfl hint (Nat.zero_le _) .start

/-- Exactly the images of at most 715827882 pixels are converted. -/
theorem rgb2gray_iff (w h : BitVec bits) (imgRgb imgGray : List Byte)
    (hsize : 3 * (w.toNat * h.toNat) < 2 ^ bits)
    (hrgb : imgRgb.length = 3 * (w.toNat * h.toNat))
    (hgray : w.toNat * h.toNat ≤ imgGray.length) :
    Converts imgRgb imgGray w h ↔ w.toNat * h.toNat ≤ intMax / 3 := by
  constructor
  · rintro ⟨gray, hrun, -⟩
    by_contra hlarge
    rw [rgb2gray_overflow hsize hrgb hgray (not_le.mp hlarge)] at hrun
    cases hrun
  · intro hint
    rw [Converts]
    rw [← product_toNat hsize] at *
    exact loop_ok hrgb hgray rfl (by omega) (Nat.zero_le _) .start

theorem rgb2gray_two : Converts [255, 255, 255, 10, 20, 30] [0, 0] 2#64 1#64 :=
  (rgb2gray_iff 2#64 1#64 [255, 255, 255, 10, 20, 30] [0, 0] (by decide) rfl le_rfl).mpr (by decide)

theorem rgb2gray_large :
    ¬ Converts (List.replicate 2147483649 0) (List.replicate 715827883 0) 715827883#64 1#64 := by
  rintro ⟨gray, hrun, -⟩
  have hover : rgb2grayU8 (List.replicate 2147483649 0) (List.replicate 715827883 0) 715827883#64
      1#64 = .error .overflow := by
    apply rgb2gray_overflow
    · decide
    · rw [List.length_replicate]
      rfl
    · rw [List.length_replicate]
      decide
    · decide
  rw [hover] at hrun
  cases hrun

end LinuxSystemProgramming.GrayImage
