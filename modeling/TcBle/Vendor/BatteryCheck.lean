import Mathlib.Data.List.GetD
import Mathlib.Data.UInt
import TcBle.Foundation.InsertionSort
import TcBle.Foundation.Run

/-!
# The battery check

`app_battery_power_check` takes eight samples of the battery voltage, sorts them while they come in,
and converts the average of the middle four to millivolts. `user_battery_power_check` marks a low
battery in an analog register that outlives deep sleep, and asks for 200 mV more once it is marked.

## The model

This is the check of the C825x and the C827x. A word of the buffer is read once it is not zero; the
words are what the loop reads. The products are unsigned with 32 bits, the voltage is signed with
16. The state is the analog register: the light and the deep sleep of a low battery leave it alone.

## What is proved

* `battVolMv_eq` — with a calibration that fits, no conversion wraps around; `fits_of_le` says which
  calibrations do.
* `check_between` — two samples that are too small and two that are too great make no difference.
* `lowBattFlg_run` — after any run of checks the mark is what the last decisive reading says, and
  the other bits of the register are as they were.
-/

namespace TcBle.Vendor.BatteryCheck

open TcBle.Foundation

/-! ### The code -/

def ADC_SAMPLE_NUM : ℕ := 8

/-- The bit of `USED_DEEP_ANA_REG` that marks a low battery. -/
def LOW_BATT_FLG : UInt8 := 1

/-- The words of `adc_dat_buf`. -/
abbrev AdcDatBuf := Vector UInt32 ADC_SAMPLE_NUM

/-- The sample in a word, which is differential: `BIT(13)` is the sign. -/
def adcSample (w : UInt32) : ℕ :=
  if w &&& 0x2000 ≠ 0 then 0 else (w.toUInt16 &&& 0x1FFF).toNat

/-- The samples of the buffer, in their order. -/
def samples (buf : AdcDatBuf) : List ℕ := buf.toList.map adcSample

/-- `adc_sample` after the loop, which sorts the samples while they come in. -/
def adcSamples (buf : AdcDatBuf) : List ℕ :=
  InsertionSort.fill (List.replicate ADC_SAMPLE_NUM 0) (samples buf)

/-- `adc_average`, of the middle four. -/
def adcAverage (a : List ℕ) : ℕ := (a.getD 2 0 + a.getD 3 0 + a.getD 4 0 + a.getD 5 0) / 4

/-- `ADC_INPUT_PCHN`: the supply, or a pin that is driven high. -/
inductive AdcInputPchn
  | vbat
  | gpio

/-- What the conversion to a voltage depends on. -/
structure Calib where
  adcInputPchn : AdcInputPchn
  adcPreScale : UInt8
  adcVbatCalibVref : UInt16
  adcGpioCalibVref : UInt16
  adcGpioCalibVrefOffset : Int8

/-- The conversion to `s16`. -/
def s16 (n : ℤ) : ℤ := (n + 2 ^ 15) % 2 ^ 16 - 2 ^ 15

/-- `batt_vol_mv`. -/
def battVolMv (c : Calib) (adcResult : ℕ) : ℤ :=
  match c.adcInputPchn with
  | .vbat =>
    s16 (adcResult * c.adcPreScale.toNat * c.adcVbatCalibVref.toNat % 2 ^ 32 / 2 ^ 13 * 3 % 2 ^ 32
      : ℕ)
  | .gpio =>
    s16 (((adcResult * c.adcPreScale.toNat * c.adcGpioCalibVref.toNat % 2 ^ 32 / 2 ^ 13 : ℕ) +
      c.adcGpioCalibVrefOffset.toInt) % 2 ^ 32)

/-- The voltage that is compared. -/
def reading (c : Calib) (buf : AdcDatBuf) : ℤ := battVolMv c (adcAverage (adcSamples buf))

def appBatteryPowerCheck (c : Calib) (alramVolMv : UInt16) (buf : AdcDatBuf) : Bool :=
  if reading c buf < alramVolMv.toNat then false else true

/-- `user_battery_power_check`, on `USED_DEEP_ANA_REG`. -/
def userBatteryPowerCheck (c : Calib) (alarmVolMv : UInt16) (reg : UInt8) (buf : AdcDatBuf) :
    UInt8 :=
  let batteryCheckReturnValue :=
    if reg &&& LOW_BATT_FLG ≠ 0 then appBatteryPowerCheck c (alarmVolMv + 200) buf
    else appBatteryPowerCheck c alarmVolMv buf
  if batteryCheckReturnValue then reg &&& ~~~LOW_BATT_FLG else reg ||| LOW_BATT_FLG

/-! ### The samples -/

theorem adcSample_le (w : UInt32) : adcSample w ≤ 0x1FFF := by
  unfold adcSample
  split_ifs
  · exact Nat.zero_le _
  · rw [UInt16.toNat_and]
    exact Nat.and_le_right

@[simp] theorem length_samples (buf : AdcDatBuf) : (samples buf).length = ADC_SAMPLE_NUM := by
  simp [samples]

theorem adcSamples_sorted (buf : AdcDatBuf) :
    (adcSamples buf).Perm (samples buf) ∧ (adcSamples buf).Pairwise (· ≤ ·) :=
  InsertionSort.fill_sorted (by simp)

theorem length_adcSamples (buf : AdcDatBuf) : (adcSamples buf).length = ADC_SAMPLE_NUM := by
  rw [(adcSamples_sorted buf).1.length_eq, length_samples]

/-- The average is between bounds that the middle four samples are between. -/
theorem adcAverage_between {a : List ℕ} {lo hi : ℕ}
    (h : ∀ i, 2 ≤ i → i ≤ 5 → lo ≤ a.getD i 0 ∧ a.getD i 0 ≤ hi) :
    lo ≤ adcAverage a ∧ adcAverage a ≤ hi := by
  have h₂ := h 2 (by decide) (by decide)
  have h₃ := h 3 (by decide) (by decide)
  have h₄ := h 4 (by decide) (by decide)
  have h₅ := h 5 (by decide) (by decide)
  unfold adcAverage
  omega

/-- **Two samples at each end are dropped**: the average is between any bounds that no more than two
samples are below and no more than two above. -/
theorem average_between (buf : AdcDatBuf) (lo hi : ℕ)
    (hlo : (samples buf).countP (· < lo) ≤ 2) (hhi : (samples buf).countP (hi < ·) ≤ 2) :
    lo ≤ adcAverage (adcSamples buf) ∧ adcAverage (adcSamples buf) ≤ hi := by
  obtain ⟨hperm, hsorted⟩ := adcSamples_sorted buf
  have hlen : (adcSamples buf).length = 8 := length_adcSamples buf
  rw [← hperm.countP_eq] at hlo hhi
  refine adcAverage_between fun i h₂ h₅ => ?_
  have hi' : i < (adcSamples buf).length := by omega
  rw [List.getD_eq_getElem _ _ hi']
  exact ⟨InsertionSort.le_of_countP hsorted hlo h₂ hi',
    InsertionSort.le_of_countP_gt hsorted hhi (by omega)⟩

theorem average_le (buf : AdcDatBuf) : adcAverage (adcSamples buf) ≤ 0x1FFF := by
  have hnone : (samples buf).countP (0x1FFF < ·) = 0 := by
    rw [List.countP_eq_zero]
    intro x hx
    obtain ⟨w, -, rfl⟩ := List.mem_map.mp hx
    simpa using adcSample_le w
  exact (average_between buf 0 0x1FFF (by simp) (by omega)).2

/-! ### The voltage -/

namespace Calib

/-- The voltage of an average, in millivolts. -/
def millivolts (c : Calib) (code : ℕ) : ℤ :=
  match c.adcInputPchn with
  | .vbat => ((code * c.adcPreScale.toNat * c.adcVbatCalibVref.toNat / 2 ^ 13 * 3 : ℕ) : ℤ)
  | .gpio => ((code * c.adcPreScale.toNat * c.adcGpioCalibVref.toNat / 2 ^ 13 : ℕ) : ℤ) +
      c.adcGpioCalibVrefOffset.toInt

/-- The greatest voltage is one of 16 bits, and the scale one of `ADC_PreScalingTypeDef`. -/
structure Fits (c : Calib) : Prop where
  scale : c.adcPreScale ≤ 8
  top : c.millivolts 0x1FFF < 2 ^ 15

theorem product_mono {code code' : ℕ} (h : code ≤ code') (s v : ℕ) :
    code * s * v / 2 ^ 13 ≤ code' * s * v / 2 ^ 13 :=
  Nat.div_le_div_right (Nat.mul_le_mul_right v (Nat.mul_le_mul_right s h))

theorem millivolts_mono (c : Calib) {code code' : ℕ} (h : code ≤ code') :
    c.millivolts code ≤ c.millivolts code' := by
  unfold millivolts
  cases c.adcInputPchn with
  | vbat => exact Int.ofNat_le.mpr (Nat.mul_le_mul_right 3 (product_mono h _ _))
  | gpio => exact Int.add_le_add_right (Int.ofNat_le.mpr (product_mono h _ _)) _

/-- The product of an average with a scale and a reference. -/
theorem product_le {code s v top : ℕ} (hcode : code ≤ 0x1FFF) (hs : s ≤ 8) (hv : v ≤ top) :
    code * s * v ≤ 0x1FFF * 8 * top :=
  Nat.mul_le_mul (Nat.mul_le_mul hcode hs) hv

/-- It has 32 bits. -/
theorem product_lt {code s v : ℕ} (hcode : code ≤ 0x1FFF) (hs : s ≤ 8) (hv : v < 2 ^ 16) :
    code * s * v < 2 ^ 32 :=
  (product_le hcode hs (Nat.le_sub_one_of_lt hv)).trans_lt (by decide)

/-- **A reference of up to 1302 mV fits**, which is what `user_calib_adc_vref` takes for a one-point
calibration. -/
theorem fits_of_le {c : Calib} (hscale : c.adcPreScale ≤ 8) (hvbat : c.adcVbatCalibVref ≤ 1302)
    (hgpio : c.adcGpioCalibVref ≤ 1302) : c.Fits := by
  have hs : c.adcPreScale.toNat ≤ 8 := UInt8.le_iff_toNat_le.mp hscale
  have htop : ∀ v : UInt16, v ≤ 1302 → 0x1FFF * c.adcPreScale.toNat * v.toNat / 2 ^ 13 ≤ 10414 :=
    fun v hv => Nat.div_le_div_right
      (product_le (le_refl _) hs (show v.toNat ≤ 1302 from UInt16.le_iff_toNat_le.mp hv))
  have hoffset := c.adcGpioCalibVrefOffset.toInt_lt
  have hv := htop _ hvbat
  have hg := htop _ hgpio
  refine ⟨hscale, ?_⟩
  unfold millivolts
  cases c.adcInputPchn with
  | vbat =>
    show ((0x1FFF * c.adcPreScale.toNat * c.adcVbatCalibVref.toNat / 2 ^ 13 * 3 : ℕ) : ℤ) < 2 ^ 15
    omega
  | gpio =>
    show ((0x1FFF * c.adcPreScale.toNat * c.adcGpioCalibVref.toNat / 2 ^ 13 : ℕ) : ℤ) +
      c.adcGpioCalibVrefOffset.toInt < 2 ^ 15
    omega

end Calib

theorem s16_of_range {n : ℤ} (hlo : -2 ^ 15 ≤ n) (hhi : n < 2 ^ 15) : s16 n = n := by
  unfold s16
  omega

theorem s16_emod (n : ℤ) : s16 (n % 2 ^ 32) = s16 n := by
  unfold s16
  omega

/-- **No conversion wraps around**, with a calibration that fits. -/
theorem battVolMv_eq {c : Calib} (hc : c.Fits) {code : ℕ} (hcode : code ≤ 0x1FFF) :
    battVolMv c code = c.millivolts code := by
  have hscale : c.adcPreScale.toNat ≤ 8 := UInt8.le_iff_toNat_le.mp hc.scale
  have htop := (c.millivolts_mono hcode).trans_lt hc.top
  unfold battVolMv
  unfold Calib.millivolts at htop ⊢
  cases h : c.adcInputPchn with
  | vbat =>
    simp only [h] at htop ⊢
    rw [Nat.mod_eq_of_lt (Calib.product_lt hcode hscale (UInt16.toNat_lt _)),
      Nat.mod_eq_of_lt (by omega)]
    exact s16_of_range (by omega) htop
  | gpio =>
    simp only [h] at htop ⊢
    rw [Nat.mod_eq_of_lt (Calib.product_lt hcode hscale (UInt16.toNat_lt _)), s16_emod]
    have hoffset := c.adcGpioCalibVrefOffset.le_toInt
    exact s16_of_range (by omega) htop

theorem appBatteryPowerCheck_iff (c : Calib) (alarm : UInt16) (buf : AdcDatBuf) :
    appBatteryPowerCheck c alarm buf = true ↔ (alarm.toNat : ℤ) ≤ reading c buf := by
  simp [appBatteryPowerCheck]

/-- **Two samples that are too small and two that are too great make no difference**: the check
passes when the lower bound of the others is at the alarm, and fails when their upper bound is below
it. -/
theorem check_between {c : Calib} (hc : c.Fits) (alarm : UInt16) (buf : AdcDatBuf) (lo hi : ℕ)
    (hlo : (samples buf).countP (· < lo) ≤ 2) (hhi : (samples buf).countP (hi < ·) ≤ 2) :
    (alarm.toNat ≤ c.millivolts lo → appBatteryPowerCheck c alarm buf = true) ∧
      (c.millivolts hi < alarm.toNat → appBatteryPowerCheck c alarm buf = false) := by
  obtain ⟨hlow, hhigh⟩ := average_between buf lo hi hlo hhi
  have hreading : reading c buf = c.millivolts (adcAverage (adcSamples buf)) :=
    battVolMv_eq hc (average_le buf)
  refine ⟨fun h => ?_, fun h => ?_⟩
  · rw [appBatteryPowerCheck_iff, hreading]
    exact h.trans (c.millivolts_mono hlow)
  · rw [← Bool.not_eq_true, appBatteryPowerCheck_iff, hreading, not_le]
    exact (c.millivolts_mono hhigh).trans_lt h

/-- A pin at 1/8 with the default reference. -/
def defaultCalib : Calib := ⟨.gpio, 8, 1175, 1175, 0⟩

theorem defaultCalib_fits : defaultCalib.Fits :=
  Calib.fits_of_le (by decide) (by decide) (by decide)

/-- Samples of about 3 V, with a word that is zero in the bits of the sample, a negative one and two
at the top. -/
def noisy : AdcDatBuf := #v[2620, 0x4000, 2618, 8191, 2622, 8190, 2619, 0x2fff]

/-- The outliers do not make the battery a low one. -/
theorem check_between_noisy : appBatteryPowerCheck defaultCalib 2000 noisy = true :=
  (check_between defaultCalib_fits 2000 noisy 2618 2622 (by decide) (by decide)).1 (by decide)

/-! ### The mark -/

/-- What a voltage says of the battery: that it is low, that it is not, or neither. -/
def verdict (alarm : UInt16) (v : ℤ) : Option Bool :=
  if v < alarm.toNat then some true else if alarm.toNat + 200 ≤ v then some false else none

/-- The battery is marked as low. -/
def marked (reg : UInt8) : Bool := reg &&& LOW_BATT_FLG != 0

theorem or_and (a b c : UInt8) : (a ||| b) &&& c = a &&& c ||| b &&& c :=
  UInt8.eq_of_toBitVec_eq BitVec.and_or_distrib_right

theorem marked_or (reg : UInt8) : marked (reg ||| LOW_BATT_FLG) = true := by
  rw [marked, or_and, UInt8.and_self, bne_iff_ne, ne_eq, UInt8.or_eq_zero_iff]
  exact fun h => absurd h.2 (by decide)

theorem marked_and (reg : UInt8) : marked (reg &&& ~~~LOW_BATT_FLG) = false := by
  rw [marked, UInt8.and_assoc]
  simp

theorem others_or (reg : UInt8) :
    (reg ||| LOW_BATT_FLG) &&& ~~~LOW_BATT_FLG = reg &&& ~~~LOW_BATT_FLG := by
  rw [or_and]
  simp

theorem others_and (reg : UInt8) :
    (reg &&& ~~~LOW_BATT_FLG) &&& ~~~LOW_BATT_FLG = reg &&& ~~~LOW_BATT_FLG := by
  rw [UInt8.and_assoc, UInt8.and_self]

/-- One check: the threshold is the alarm, and 200 mV above it when the mark is set. -/
theorem userBatteryPowerCheck_eq (c : Calib) (alarm : UInt16) (reg : UInt8) (buf : AdcDatBuf) :
    userBatteryPowerCheck c alarm reg buf =
      if appBatteryPowerCheck c (if marked reg then alarm + 200 else alarm) buf
      then reg &&& ~~~LOW_BATT_FLG else reg ||| LOW_BATT_FLG := by
  unfold userBatteryPowerCheck marked
  by_cases h : reg &&& LOW_BATT_FLG = 0 <;> simp [h]

theorem others_step (c : Calib) (alarm : UInt16) (reg : UInt8) (buf : AdcDatBuf) :
    userBatteryPowerCheck c alarm reg buf &&& ~~~LOW_BATT_FLG = reg &&& ~~~LOW_BATT_FLG := by
  rw [userBatteryPowerCheck_eq]
  cases appBatteryPowerCheck c (if marked reg then alarm + 200 else alarm) buf with
  | false => exact others_or reg
  | true => exact others_and reg

/-- **One check** sets the mark to what the voltage says, and keeps it when it says nothing. -/
theorem marked_step (c : Calib) {alarm : UInt16} (halarm : alarm.toNat + 200 < 2 ^ 16) (reg : UInt8)
    (buf : AdcDatBuf) : marked (userBatteryPowerCheck c alarm reg buf) =
      (verdict alarm (reading c buf)).getD (marked reg) := by
  have hraised : (alarm + 200).toNat = alarm.toNat + 200 := by
    rw [UInt16.toNat_add]
    exact Nat.mod_eq_of_lt halarm
  have hcheck : ∀ level : UInt16, appBatteryPowerCheck c level buf =
      decide ((level.toNat : ℤ) ≤ reading c buf) := fun level =>
    Bool.eq_iff_iff.mpr ((appBatteryPowerCheck_iff c level buf).trans decide_eq_true_iff.symm)
  rw [userBatteryPowerCheck_eq, apply_ite marked, marked_and, marked_or, hcheck]
  generalize reading c buf = v
  unfold verdict
  cases marked reg with
  | false =>
    rw [if_neg Bool.false_ne_true]
    by_cases hlow : v < alarm.toNat
    · simp [hlow]
    · have hpass : (alarm.toNat : ℤ) ≤ v := not_lt.mp hlow
      by_cases hhigh : (alarm.toNat : ℤ) + 200 ≤ v <;> simp [hlow, hpass, hhigh]
  | true =>
    rw [if_pos rfl, hraised, Nat.cast_add]
    by_cases hlow : v < alarm.toNat
    · have hfail : ¬ (alarm.toNat : ℤ) + 200 ≤ v := by omega
      simp [hlow, hfail]
    · by_cases hhigh : (alarm.toNat : ℤ) + 200 ≤ v <;> simp [hlow, hhigh]

/-- **After any run of checks** the mark is what the latest voltage that says anything says, and
what it was before if none does; the other bits of the register are as they were. -/
theorem lowBattFlg_run (c : Calib) (alarm : UInt16) (halarm : alarm.toNat + 200 < 2 ^ 16)
    (reg : UInt8) (run : List AdcDatBuf) :
    marked (run.foldl (userBatteryPowerCheck c alarm) reg) =
        (Run.latest (fun buf => verdict alarm (reading c buf)) run).getD (marked reg) ∧
      run.foldl (userBatteryPowerCheck c alarm) reg &&& ~~~LOW_BATT_FLG =
        reg &&& ~~~LOW_BATT_FLG := by
  have hrun := @Run.get_foldl _ _ (userBatteryPowerCheck c alarm) reg _
    (fun buf => verdict alarm (reading c buf))
    (fun r => r &&& ~~~LOW_BATT_FLG = reg &&& ~~~LOW_BATT_FLG) marked rfl
    (fun r buf h => (others_step c alarm r buf).trans h)
    (fun r buf _ => marked_step c halarm r buf) run
  exact ⟨hrun.2, hrun.1⟩

/-- A battery that is found low. -/
def flat : AdcDatBuf := Vector.replicate 8 1700

/-- After a low reading a good one clears the mark, which was set between. -/
theorem lowBattFlg_run_flat :
    marked ([flat, noisy].foldl (userBatteryPowerCheck defaultCalib 2000) 0x80) = false :=
  (lowBattFlg_run defaultCalib 2000 (by decide) 0x80 [flat, noisy]).1.trans (by decide)

end TcBle.Vendor.BatteryCheck
