import TcBle.Vendor.GuiDecStr

/-!
# Drawing on the electronic shelf label

`eslp_esl_demo/vendor_image/gui.c`: `GUI_DispPic`, `GUI_DispChar` and `GUI_DispStr` draw a picture, a
character and a string. The display is 296 columns of 128 pixels; a column is 16 bytes of the buffer,
of which the last is at the top. A position is a column and a byte of it from the top, and the tests
compare it with pixels.

## The model

An `int` is an integer: a sum that overflows has no meaning in C. What a call writes is the list of
its writes into the buffer, in order, wherever they go; with each goes the picture that it is a byte
of. The bitmaps of the fonts are a parameter, `glyphs`; which characters have one is as in the
tables.

## What is proved

* `dispPic_ok_iff` — a picture is inside exactly when its bytes fit below its position.
* `dispChar_ok_iff` and `dispStr_ok_iff` — so are characters, and strings.
-/

namespace TcBle.Vendor

/-- What the functions of the display return. -/
inductive GuiErrorCode
  /-- `GUI_ERROR_CODE_NO_ERROR`. -/
  | noError
  /-- `GUI_ERROR_CODE_OVERFLOW`. -/
  | overflow
  /-- `GUI_ERROR_CODE_NOT_SUPPORT_CHAR`. -/
  | notSupportChar
  deriving DecidableEq

/-- `FONT_STYLE_NAME_Typedef`. -/
inductive FontStyle
  /-- `FONT_8_x_16`. -/
  | font8x16
  /-- `FONT_16_x_32`. -/
  | font16x32
  /-- `FONT_32_x_56`. -/
  | font32x56
  deriving DecidableEq

namespace FontStyle

/-- `font_width`. -/
def width : FontStyle → UInt8
  | font8x16 => 8
  | font16x32 => 16
  | font32x56 => 32

/-- `font_height`. -/
def height : FontStyle → UInt8
  | font8x16 => 16
  | font16x32 => 32
  | font32x56 => 56

/-- The characters of `font_bitmap` before the `END_MARK`. -/
def chars : FontStyle → List Char
  | font8x16 =>
    ['0', '1', '2', '3', '4', '5', '6', '7', '8', '9', 'A', 'B', 'C', 'D', 'E', 'F', 'G', 'H', 'I',
      'J', 'K', 'L', 'M', 'N', 'O', 'P', 'Q', 'R', 'S', 'T', 'U', 'V', 'W', 'X', 'Y', 'Z', '.', ' ',
      '/', 'c', 'e', 'g', 'i', 'k', 'l', 'n', 'p', 'u']
  | font16x32 =>
    -- `E`, `$`, `Y` and `F` stand for the signs of the currencies
    ['0', '1', '2', '3', '4', '5', '6', '7', '8', '9', 'E', '$', 'Y', 'F', '.', '/']
  | font32x56 => ['0', '1', '2', '3', '4', '5', '6', '7', '8', '9', '.']

/-- The font has the character. -/
def Has (f : FontStyle) (data : UInt8) : Prop := ∃ c ∈ f.chars, c.toNat = data.toNat

instance {f : FontStyle} {data : UInt8} : Decidable (f.Has data) :=
  decidable_of_iff (f.chars.any fun c => c.toNat = data.toNat) (by simp [Has])

end FontStyle

/-- `X_channel`: the bytes of a column. -/
def X_channel : ℕ := 16

/-- `Y_channel`: the last of them. -/
def Y_channel : ℕ := 15

/-- `X_MAX`. -/
def X_MAX : ℕ := 296

/-- `Y_MAX`. -/
def Y_MAX : ℕ := 128

/-- `E_UNIT`: the pixels of a byte. -/
def E_UNIT : ℕ := 8

/-- `EPD_DATA_SIZE`. -/
def EPD_DATA_SIZE : ℕ := 4736

/-- A byte that is written. -/
structure GuiWrite where
  /-- Where, from `image` on. -/
  index : ℤ
  /-- What. -/
  byte : UInt8
  /-- The first column of the picture that it is a byte of. -/
  picX : ℤ
  /-- The width of the picture. -/
  picWidth : UInt8
  deriving DecidableEq

/-- `GUI_DispPic`. -/
def dispPic (x y : ℤ) (pic : ℕ → UInt8) (width height : UInt8) : GuiErrorCode × List GuiWrite :=
  let nBit := height.toNat / E_UNIT
  if x > X_MAX ∨ y > Y_MAX then (.overflow, [])
  else
    (.noError,
      (List.range width.toNat).flatMap fun (i : ℕ) =>
        (List.range nBit).map fun (j : ℕ) =>
          ⟨(x + i) * X_channel + Y_channel - y - j, pic (nBit * (1 + i) - j - 1), x, width⟩)

/-- `GUI_GetFont`. -/
def getFont (glyphs : FontStyle → UInt8 → ℕ → UInt8) (data : UInt8) (f : FontStyle) :
    Option (ℕ → UInt8) :=
  if f.Has data then some (glyphs f data) else none

/-- `GUI_DispChar`. -/
def dispChar (glyphs : FontStyle → UInt8 → ℕ → UInt8) (x y : ℤ) (data : UInt8) (f : FontStyle) :
    GuiErrorCode × List GuiWrite :=
  if x + f.width.toNat > X_MAX ∨ y + f.height.toNat > Y_MAX then (.overflow, [])
  else
    match getFont glyphs data f with
    | none => (.notSupportChar, [])
    | some font => (.noError, (dispPic x y font f.width f.height).2)

/-- `GUI_DispStr`. What `GUI_DispChar` returns is not looked at. -/
def dispStr (glyphs : FontStyle → UInt8 → ℕ → UInt8) (x y : ℤ) (str : ℕ → UInt8)
    (h : ∃ i, str i = 0) (dir : UInt8) (f : FontStyle) : GuiErrorCode × List GuiWrite :=
  let len := appStrlen str h
  if dir ≠ 0 then
    if (len : ℤ) * f.width.toNat + x > X_MAX then (.overflow, [])
    else
      (.noError, (List.range len).flatMap fun (i : ℕ) =>
        (dispChar glyphs (x + i * f.width.toNat) y (str i) f).2)
  else
    if (len : ℤ) * f.height.toNat + y > Y_MAX then (.overflow, [])
    else
      (.noError, (List.range len).flatMap fun (i : ℕ) => (dispChar glyphs x (y + i * 2) (str i) f).2)

/-! ### Where the bytes go -/

/-- A byte is inside: in the buffer, and in a column of its picture. -/
structure GuiWrite.Inside (w : GuiWrite) : Prop where
  /-- It is not before the buffer. -/
  nonneg : 0 ≤ w.index
  /-- It is not behind. -/
  lt_size : w.index < EPD_DATA_SIZE
  /-- It is not left of the picture. -/
  picX_le : w.picX ≤ w.index / X_channel
  /-- It is not right of it. -/
  lt_right : w.index / X_channel < w.picX + w.picWidth.toNat

/-- The bytes of a picture at `y`, `nBit` of them in a column, fit below it. -/
def RowsFit (y nBit : ℕ) : Prop := y + nBit ≤ 16

instance {y nBit : ℕ} : Decidable (RowsFit y nBit) := inferInstanceAs (Decidable (_ ≤ _))

/-- A byte of a column that fits is in the column. -/
theorem index_div_of_fit {x : ℤ} {y i j : ℕ} (h : y + j < 16) :
    ((x + i) * X_channel + Y_channel - y - j) / X_channel = x + i := by
  simp only [X_channel, Y_channel]
  omega

/-- **A picture is inside** exactly when it is empty, or it fits to the right and below. -/
theorem dispPic_ok_iff (x y : ℕ) (pic : ℕ → UInt8) (width height : UInt8) :
    (∀ w ∈ (dispPic x y pic width height).2, w.Inside) ↔
      (x ≤ X_MAX ∧ y ≤ Y_MAX → width.toNat = 0 ∨ height.toNat / E_UNIT = 0 ∨
        x + width.toNat ≤ X_MAX ∧ RowsFit y (height.toNat / E_UNIT)) := by
  by_cases hover : (x : ℤ) > X_MAX ∨ (y : ℤ) > Y_MAX
  · have hnot : ¬ (x ≤ X_MAX ∧ y ≤ Y_MAX) := by omega
    simp only [dispPic, hover, if_true, hnot, false_imp_iff, iff_true]
    exact fun w hw => absurd hw List.not_mem_nil
  · have hin : x ≤ X_MAX ∧ y ≤ Y_MAX := by omega
    generalize hn : height.toNat / E_UNIT = nBit
    have hmem : ∀ w, w ∈ (dispPic x y pic width height).2 ↔ ∃ i < width.toNat, ∃ j < nBit,
        ⟨((x : ℤ) + i) * X_channel + Y_channel - y - j, pic (nBit * (1 + i) - j - 1), x, width⟩ =
          w := by
      intro w
      simp only [dispPic, hover, if_false, hn, List.mem_flatMap, List.mem_range, List.mem_map]
    simp only [hmem, hin, and_self, true_imp_iff, RowsFit]
    constructor
    · intro h
      rcases Nat.eq_zero_or_pos width.toNat with hw | hw
      · exact .inl hw
      rcases Nat.eq_zero_or_pos nBit with h0 | h0
      · exact .inr (.inl h0)
      right; right
      -- the lowest byte of the first column, and the highest of the last
      have hlow := (h _ ⟨0, hw, nBit - 1, by omega, rfl⟩).picX_le
      have hright := (h _ ⟨width.toNat - 1, by omega, 0, h0, rfl⟩).lt_size
      simp only [X_channel, Y_channel, X_MAX, EPD_DATA_SIZE] at hlow hright ⊢
      omega
    · rintro (hw | h0 | ⟨hx, hy⟩) w ⟨i, hi, j, hj, rfl⟩
      · omega
      · omega
      · have hcol := index_div_of_fit (x := x) (i := i) (by omega : y + j < 16)
        refine ⟨?_, ?_, ?_, ?_⟩
        · show 0 ≤ ((x : ℤ) + i) * X_channel + Y_channel - y - j
          simp only [X_channel, Y_channel]
          omega
        · show ((x : ℤ) + i) * X_channel + Y_channel - y - j < EPD_DATA_SIZE
          simp only [X_channel, Y_channel, X_MAX, EPD_DATA_SIZE] at hx ⊢
          omega
        · show (x : ℤ) ≤ (((x : ℤ) + i) * X_channel + Y_channel - y - j) / X_channel
          rw [hcol]
          omega
        · show (((x : ℤ) + i) * X_channel + Y_channel - y - j) / X_channel < (x : ℤ) + width.toNat
          rw [hcol]
          omega

/-- `GUI_DispChar` draws the character there: it passes the test, and the font has it. -/
def Draws (f : FontStyle) (x y : ℕ) (data : UInt8) : Prop :=
  x + f.width.toNat ≤ X_MAX ∧ y + f.height.toNat ≤ Y_MAX ∧ f.Has data

instance {f : FontStyle} {x y : ℕ} {data : UInt8} : Decidable (Draws f x y data) :=
  inferInstanceAs (Decidable (_ ∧ _))

variable (glyphs : FontStyle → UInt8 → ℕ → UInt8)

/-- What `GUI_DispChar` writes. -/
theorem dispChar_writes (f : FontStyle) (x y : ℕ) (data : UInt8) :
    (dispChar glyphs x y data f).2 =
      if Draws f x y data then (dispPic x y (glyphs f data) f.width f.height).2 else [] := by
  by_cases hover : (x : ℤ) + f.width.toNat > X_MAX ∨ (y : ℤ) + f.height.toNat > Y_MAX
  · have hnot : ¬ Draws f x y data := fun h => by
      obtain ⟨hx, hy, -⟩ := h
      omega
    simp only [dispChar, hover, if_true, hnot, if_false]
  · have hiff : Draws f x y data ↔ f.Has data := by
      refine ⟨fun h => h.2.2, fun h => ⟨?_, ?_, h⟩⟩ <;> omega
    simp only [dispChar, hover, if_false, hiff, getFont]
    by_cases hhas : f.Has data <;> simp [hhas]

/-- **A character is inside** exactly when it is not drawn, or fits below its position. -/
theorem dispChar_ok_iff (f : FontStyle) (x y : ℕ) (data : UInt8) :
    (∀ w ∈ (dispChar glyphs x y data f).2, w.Inside) ↔
      (Draws f x y data → RowsFit y (f.height.toNat / E_UNIT)) := by
  rw [dispChar_writes]
  by_cases hdraws : Draws f x y data
  · obtain ⟨hx, hy, -⟩ := id hdraws
    have hpos : f.width.toNat ≠ 0 ∧ f.height.toNat / E_UNIT ≠ 0 := by cases f <;> decide
    have hin : x ≤ X_MAX ∧ y ≤ Y_MAX := by omega
    rw [if_pos hdraws, dispPic_ok_iff]
    simp only [hdraws, hin, and_self, true_imp_iff, hpos.1, hpos.2, false_or, hx, true_and]
  · simp [hdraws]

/-- `GUI_DispStr` starts to draw a string of this length: it passes the test. -/
def StrPasses (f : FontStyle) (x y len : ℕ) (dir : UInt8) : Prop :=
  if dir ≠ 0 then len * f.width.toNat + x ≤ X_MAX else len * f.height.toNat + y ≤ Y_MAX

instance {f : FontStyle} {x y len : ℕ} {dir : UInt8} : Decidable (StrPasses f x y len dir) := by
  unfold StrPasses
  infer_instance

/-- Where it draws a character. -/
def strPos (f : FontStyle) (x y : ℕ) (dir : UInt8) (i : ℕ) : ℕ × ℕ :=
  if dir ≠ 0 then (x + i * f.width.toNat, y) else (x, y + i * 2)

/-- What `GUI_DispStr` writes. -/
theorem dispStr_writes (f : FontStyle) (x y : ℕ) (str : ℕ → UInt8) (h : ∃ i, str i = 0)
    (dir : UInt8) :
    (dispStr glyphs x y str h dir f).2 =
      if StrPasses f x y (appStrlen str h) dir then
        (List.range (appStrlen str h)).flatMap fun i =>
          (dispChar glyphs (strPos f x y dir i).1 (strPos f x y dir i).2 (str i) f).2
      else [] := by
  by_cases hdir : dir ≠ 0
  · have hiff : (appStrlen str h : ℤ) * f.width.toNat + x > X_MAX ↔
        ¬ StrPasses f x y (appStrlen str h) dir := by
      rw [StrPasses, if_pos hdir, not_le]
      exact_mod_cast Iff.rfl
    simp only [dispStr, if_pos hdir, hiff, strPos]
    by_cases hpass : StrPasses f x y (appStrlen str h) dir <;> simp [hpass]
  · have hiff : (appStrlen str h : ℤ) * f.height.toNat + y > Y_MAX ↔
        ¬ StrPasses f x y (appStrlen str h) dir := by
      rw [StrPasses, if_neg hdir, not_le]
      exact_mod_cast Iff.rfl
    simp only [dispStr, if_neg hdir, hiff, strPos]
    by_cases hpass : StrPasses f x y (appStrlen str h) dir <;> simp [hpass]

/-- **A string is inside** exactly when each of its characters is. -/
theorem dispStr_ok_iff (f : FontStyle) (x y : ℕ) (str : ℕ → UInt8) (h : ∃ i, str i = 0)
    (dir : UInt8) :
    (∀ w ∈ (dispStr glyphs x y str h dir f).2, w.Inside) ↔
      (StrPasses f x y (appStrlen str h) dir → ∀ i < appStrlen str h,
        Draws f (strPos f x y dir i).1 (strPos f x y dir i).2 (str i) →
          RowsFit (strPos f x y dir i).2 (f.height.toNat / E_UNIT)) := by
  rw [dispStr_writes]
  by_cases hpass : StrPasses f x y (appStrlen str h) dir
  · rw [if_pos hpass]
    simp only [hpass, true_imp_iff, List.mem_flatMap, List.mem_range]
    constructor
    · intro hall i hi
      apply (dispChar_ok_iff glyphs f _ _ (str i)).mp
      intro w hw
      exact hall w ⟨i, hi, hw⟩
    · rintro hall w ⟨i, hi, hw⟩
      exact (dispChar_ok_iff glyphs f _ _ (str i)).mpr (hall i hi) w hw
  · simp [hpass]

/-! ### Calls that return no error -/

/-- Where `GUI_DispPic` returns an error, nothing is written. -/
theorem dispPic_of_error {x y : ℤ} {pic : ℕ → UInt8} {width height : UInt8}
    (h : (dispPic x y pic width height).1 ≠ .noError) : (dispPic x y pic width height).2 = [] := by
  unfold dispPic at h ⊢
  split at h
  · simp [*]
  · exact absurd rfl h

/-- Where `GUI_DispChar` returns an error, nothing is written. -/
theorem dispChar_of_error {x y : ℤ} {data : UInt8} {f : FontStyle}
    (h : (dispChar glyphs x y data f).1 ≠ .noError) : (dispChar glyphs x y data f).2 = [] := by
  unfold dispChar at h ⊢
  split at h
  · simp [*]
  · split at h
    · simp [*]
    · exact absurd rfl h

/-- Where `GUI_DispStr` returns an error, nothing is written. -/
theorem dispStr_of_error {x y : ℤ} {str : ℕ → UInt8} {hend : ∃ i, str i = 0} {dir : UInt8}
    {f : FontStyle} (h : (dispStr glyphs x y str hend dir f).1 ≠ .noError) :
    (dispStr glyphs x y str hend dir f).2 = [] := by
  unfold dispStr at h ⊢
  dsimp only at h ⊢
  split_ifs at h ⊢ <;> first | rfl | exact absurd rfl h

/-- A call that writes nothing where it returns an error is inside where it returns none, exactly when
it is. -/
theorem inside_of_noError {r : GuiErrorCode × List GuiWrite} (h : r.1 ≠ .noError → r.2 = []) :
    (r.1 = .noError → ∀ w ∈ r.2, w.Inside) ↔ ∀ w ∈ r.2, w.Inside := by
  constructor
  · intro hok w hw
    apply hok _ w hw
    by_contra herr
    rw [h herr] at hw
    exact absurd hw List.not_mem_nil
  · intro hok _
    exact hok

/-- **Drawing stays inside** exactly where a picture that passes the test is empty or fits to the right
and below, and the characters that are drawn, alone or of a string, fit below: a byte is eight
pixels high, and the tests count it as one. -/
theorem gui_inside_iff (x y : ℕ) (pic : ℕ → UInt8) (width height data dir : UInt8) (f : FontStyle)
    (str : ℕ → UInt8) (h : ∃ i, str i = 0) :
    (((dispPic x y pic width height).1 = .noError →
          ∀ w ∈ (dispPic x y pic width height).2, w.Inside) ↔
        (x ≤ X_MAX ∧ y ≤ Y_MAX → width.toNat = 0 ∨ height.toNat / E_UNIT = 0 ∨
          x + width.toNat ≤ X_MAX ∧ RowsFit y (height.toNat / E_UNIT))) ∧
    (((dispChar glyphs x y data f).1 = .noError →
          ∀ w ∈ (dispChar glyphs x y data f).2, w.Inside) ↔
        (Draws f x y data → RowsFit y (f.height.toNat / E_UNIT))) ∧
    (((dispStr glyphs x y str h dir f).1 = .noError →
          ∀ w ∈ (dispStr glyphs x y str h dir f).2, w.Inside) ↔
        (StrPasses f x y (appStrlen str h) dir → ∀ i < appStrlen str h,
          Draws f (strPos f x y dir i).1 (strPos f x y dir i).2 (str i) →
            RowsFit (strPos f x y dir i).2 (f.height.toNat / E_UNIT))) := by
  refine ⟨?_, ?_, ?_⟩
  · rw [inside_of_noError dispPic_of_error]
    exact dispPic_ok_iff x y pic width height
  · rw [inside_of_noError (dispChar_of_error glyphs)]
    exact dispChar_ok_iff glyphs f x y data
  · rw [inside_of_noError (dispStr_of_error glyphs)]
    exact dispStr_ok_iff glyphs f x y str h dir

/-- At the pixel 100, a `0` is written before the buffer. -/
theorem gui_outside :
    let r := dispChar (fun _ _ _ => 0) 0 100 48 .font8x16
    r.1 = .noError ∧ ∃ w ∈ r.2, ¬ w.Inside := by
  refine ⟨by decide, ⟨-85, 0, 0, 8⟩, by decide, fun h => ?_⟩
  have : (0 : ℤ) ≤ -85 := h.nonneg
  omega

/-- A `0` at the byte 14 of the first column is inside. -/
theorem gui_inside_at_bottom :
    let r := dispChar (fun _ _ _ => 0) (0 : ℕ) (14 : ℕ) 48 .font8x16
    r.1 = .noError ∧ ∀ w ∈ r.2, w.Inside := by
  have hend : ∃ i : ℕ, (fun _ => 0 : ℕ → UInt8) i = 0 := ⟨0, rfl⟩
  have := (gui_inside_iff (fun _ _ _ => 0) 0 14 (fun _ => 0) 0 0 48 0 .font8x16 _ hend).2.1
  exact ⟨by decide, this.mpr (fun _ => by decide) (by decide)⟩

end TcBle.Vendor
