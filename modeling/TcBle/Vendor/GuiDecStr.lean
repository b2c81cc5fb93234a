import Mathlib.Data.Nat.Digits.Lemmas
import Mathlib.Data.Nat.Find
import Mathlib.Tactic.Common

/-!
# Numbers on the electronic shelf label

`eslp_esl_demo/vendor_image/gui.c`: `GUI_IntToDecStr`, which writes a number as a string. Its first
loop writes the digits from the last one on, its second loop turns them round in place.

## The model

A string is the memory from a pointer on, of which the characters up to the first `0` matter;
`app_strlen` is defined where there is one.

## What is proved

* `intToDecStrDigits_apply` and `intToDecStrReverse_apply` — what each of the loops leaves.
* `text_intToDecStr` — the string holds the digits of the number, of which `0` has none.
-/

namespace TcBle.Vendor

/-- `app_strlen`: the characters before the first `0`. -/
def appStrlen (s : ℕ → UInt8) (h : ∃ i, s i = 0) : ℕ := Nat.find h

/-- The characters of a string. -/
def text (s : ℕ → UInt8) (h : ∃ i, s i = 0) : List UInt8 := (List.range (appStrlen s h)).map s

/-- The first loop of `GUI_IntToDecStr`, and the `i` that it ends with. -/
def intToDecStrDigits (data : UInt32) (i : ℕ) (str : ℕ → UInt8) : (ℕ → UInt8) × ℕ :=
  if h : data = 0 then (str, i)
  else
    intToDecStrDigits (data / 10) (i + 1)
      (Function.update str i ((data % 10).toUInt8 + 48)) -- `'0'` is `48`
termination_by data.toNat
decreasing_by
  rw [UInt32.toNat_div]
  apply Nat.div_lt_self
  · exact Nat.pos_of_ne_zero fun he => h (UInt32.toNat_inj.mp he)
  · decide

/-- The second loop of `GUI_IntToDecStr`. It ends before `j` would be below `0`. -/
def intToDecStrReverse (i j : ℕ) (str : ℕ → UInt8) : ℕ → UInt8 :=
  if i < j then
    intToDecStrReverse (i + 1) (j - 1) (Function.update (Function.update str i (str j)) j (str i))
  else str
termination_by j - i

/-- `str[i] = '\0'` after the digits. -/
def intToDecStrEnded (data : UInt32) (str : ℕ → UInt8) : ℕ → UInt8 :=
  let r := intToDecStrDigits data 0 str
  Function.update r.1 r.2 0

/-- It has an end. -/
theorem intToDecStrEnded_ended (data : UInt32) (str : ℕ → UInt8) :
    ∃ i, intToDecStrEnded data str i = 0 :=
  ⟨_, Function.update_self _ _ _⟩

/-- `GUI_IntToDecStr`: the string after it. `app_strlen(str) - 1` is `-1` for the empty string, and
the loop makes no round then, as for `0`. -/
def intToDecStr (data : UInt32) (str : ℕ → UInt8) : ℕ → UInt8 :=
  let str' := intToDecStrEnded data str
  intToDecStrReverse 0 (appStrlen str' (intToDecStrEnded_ended data str) - 1) str'

/-! ### Strings -/

/-- The end of a string. -/
theorem appStrlen_eq_iff {s : ℕ → UInt8} (h : ∃ i, s i = 0) (n : ℕ) :
    appStrlen s h = n ↔ s n = 0 ∧ ∀ i < n, s i ≠ 0 :=
  Nat.find_eq_iff h

/-- The characters before the end. -/
theorem text_eq {s : ℕ → UInt8} {cs : List UInt8} (hend : s cs.length = 0)
    (hcs : ∀ c ∈ cs, c ≠ 0) (hs : ∀ (i : ℕ) (hi : i < cs.length), s i = cs[i])
    (h : ∃ i, s i = 0) : text s h = cs := by
  have hlen : appStrlen s h = cs.length := by
    rw [appStrlen_eq_iff]
    refine ⟨hend, fun i hi => ?_⟩
    rw [hs i hi]
    exact hcs _ (List.getElem_mem hi)
  apply List.ext_getElem
  · rw [text, List.length_map, List.length_range, hlen]
  · intro i _ hi
    simp only [text, List.getElem_map, List.getElem_range]
    exact hs i hi

/-! ### The two loops -/

/-- The character of a digit. -/
def digitChar (d : ℕ) : UInt8 := UInt8.ofNat d + 48

theorem digitChar_toNat {d : ℕ} (h : d < 10) : (digitChar d).toNat = d + 48 := by
  rw [digitChar, UInt8.toNat_add, UInt8.toNat_ofNat']
  show (d % 256 + 48) % 256 = d + 48
  omega

theorem digitChar_ne_zero {d : ℕ} (h : d < 10) : digitChar d ≠ 0 := by
  intro he
  have := congrArg UInt8.toNat he
  rw [digitChar_toNat h] at this
  simp at this

/-- The character that the first loop writes. -/
theorem mod_ten_char (data : UInt32) :
    (data % 10).toUInt8 + 48 = digitChar (data.toNat % 10) := by
  rw [digitChar]
  congr 1

/-- The digits of a number that has some, from the last one on. -/
theorem digits_of_ne_zero {data : UInt32} (h : data ≠ 0) :
    Nat.digits 10 data.toNat = data.toNat % 10 :: Nat.digits 10 (data / 10).toNat := by
  have hpos : 0 < data.toNat := Nat.pos_of_ne_zero fun he => h (UInt32.toNat_inj.mp he)
  rw [Nat.digits_def' (by simp) hpos, UInt32.toNat_div]
  rfl

/-- **The first loop** writes the digits, from the last one on. -/
theorem intToDecStrDigits_apply (data : UInt32) (i : ℕ) (str : ℕ → UInt8) :
    (intToDecStrDigits data i str).2 = i + (Nat.digits 10 data.toNat).length ∧
      ∀ k, (intToDecStrDigits data i str).1 k =
        if k < i then str k
        else (((Nat.digits 10 data.toNat).map digitChar)[k - i]?).getD (str k) := by
  induction data, i, str using intToDecStrDigits.induct with
  | case1 i str =>
    rw [intToDecStrDigits]
    simp
  | case2 data i str h ih =>
    rw [intToDecStrDigits, dif_neg h, digits_of_ne_zero h]
    refine ⟨?_, fun k => ?_⟩
    · rw [ih.1, List.length_cons]
      omega
    · rw [ih.2 k]
      rcases lt_trichotomy k i with hk | rfl | hk
      · simp [hk, hk.ne, Nat.lt_succ_of_lt hk]
      · simp [mod_ten_char]
      · have hsub : k - i = k - (i + 1) + 1 := by omega
        have hlt : ¬ k < i + 1 := by omega
        rw [if_neg hlt, if_neg (by omega), Function.update_of_ne hk.ne', hsub, List.map_cons,
          List.getElem?_cons_succ]

/-- **The second loop** turns the characters from `i` to `j` round. -/
theorem intToDecStrReverse_apply (i j : ℕ) (str : ℕ → UInt8) (k : ℕ) :
    intToDecStrReverse i j str k = if i ≤ k ∧ k ≤ j then str (i + j - k) else str k := by
  induction i, j, str using intToDecStrReverse.induct with
  | case1 i j str h ih =>
    rw [intToDecStrReverse, if_pos h, ih]
    have hij : i + 1 + (j - 1) = i + j := by omega
    rw [hij]
    by_cases hin : i + 1 ≤ k ∧ k ≤ j - 1
    · have hi : i + j - k ≠ i := by omega
      have hj : i + j - k ≠ j := by omega
      have hout : i ≤ k ∧ k ≤ j := by omega
      rw [if_pos hin, if_pos hout, Function.update_of_ne hj, Function.update_of_ne hi]
    · rw [if_neg hin]
      by_cases hki : k = i
      · subst hki
        have hsub : k + j - k = j := by omega
        rw [Function.update_of_ne h.ne, Function.update_self, if_pos ⟨le_rfl, h.le⟩, hsub]
      · by_cases hkj : k = j
        · subst hkj
          rw [Function.update_self, if_pos ⟨h.le, le_rfl⟩, Nat.add_sub_cancel]
        · have hout : ¬ (i ≤ k ∧ k ≤ j) := by omega
          rw [Function.update_of_ne hkj, Function.update_of_ne hki, if_neg hout]
  | case2 i j str h =>
    rw [intToDecStrReverse, if_neg h]
    by_cases hin : i ≤ k ∧ k ≤ j
    · have hk : i + j - k = k := by omega
      rw [if_pos hin, hk]
    · rw [if_neg hin]

/-! ### The string -/

/-- The number that a string of digits says. -/
def parse (cs : List UInt8) : ℕ := cs.foldl (fun v c => 10 * v + (c.toNat - 48)) 0

/-- A string is the decimal representation of a number. -/
structure IsDecimal (cs : List UInt8) (value : ℕ) : Prop where
  /-- It has digits only. -/
  digit : ∀ c ∈ cs, 48 ≤ c.toNat ∧ c.toNat ≤ 57
  /-- It has at least one. -/
  nonempty : cs ≠ []
  /-- It starts with `0` only where it is `0`. -/
  no_leading_zero : cs.head? = some 48 → cs = [48]
  /-- It is read as the number. -/
  parse_eq : parse cs = value

/-- The characters after the first loop. -/
theorem intToDecStrEnded_apply (data : UInt32) (str : ℕ → UInt8) {i : ℕ}
    (hi : i < (Nat.digits 10 data.toNat).length) :
    intToDecStrEnded data str i = digitChar (Nat.digits 10 data.toNat)[i] := by
  obtain ⟨hlen, happly⟩ := intToDecStrDigits_apply data 0 str
  rw [Nat.zero_add] at hlen
  have hne : i ≠ (intToDecStrDigits data 0 str).2 := by
    rw [hlen]
    exact hi.ne
  rw [intToDecStrEnded, Function.update_of_ne hne, happly, if_neg (Nat.not_lt_zero i)]
  simp [hi]

/-- The string after the first loop: the digits, from the last one on. -/
theorem text_intToDecStrEnded (data : UInt32) (str : ℕ → UInt8) :
    text (intToDecStrEnded data str) (intToDecStrEnded_ended data str) =
      (Nat.digits 10 data.toNat).map digitChar := by
  apply text_eq
  · rw [List.length_map, intToDecStrEnded, (intToDecStrDigits_apply data 0 str).1, Nat.zero_add]
    exact Function.update_self _ _ _
  · intro c hc
    obtain ⟨d, hd, rfl⟩ := List.mem_map.mp hc
    exact digitChar_ne_zero (Nat.digits_lt_base (by simp) hd)
  · intro i hi
    rw [List.length_map] at hi
    rw [intToDecStrEnded_apply data str hi, List.getElem_map]

/-- Its length. -/
theorem appStrlen_intToDecStrEnded (data : UInt32) (str : ℕ → UInt8) :
    appStrlen (intToDecStrEnded data str) (intToDecStrEnded_ended data str) =
      (Nat.digits 10 data.toNat).length := by
  have := congrArg List.length (text_intToDecStrEnded data str)
  rwa [text, List.length_map, List.length_range, List.length_map] at this

/-- What the second loop leaves of it. -/
theorem intToDecStr_apply (data : UInt32) (str : ℕ → UInt8) (k : ℕ) :
    intToDecStr data str k =
      if k ≤ (Nat.digits 10 data.toNat).length - 1 then
        intToDecStrEnded data str ((Nat.digits 10 data.toNat).length - 1 - k)
      else intToDecStrEnded data str k := by
  rw [intToDecStr, intToDecStrReverse_apply, appStrlen_intToDecStrEnded]
  simp

/-- The string ends after the digits. -/
theorem intToDecStr_end (data : UInt32) (str : ℕ → UInt8) :
    intToDecStr data str (Nat.digits 10 data.toNat).length = 0 := by
  have hend : intToDecStrEnded data str (Nat.digits 10 data.toNat).length = 0 :=
    ((appStrlen_eq_iff _ _).mp (appStrlen_intToDecStrEnded data str)).1
  rw [intToDecStr_apply]
  rcases Nat.eq_zero_or_pos (Nat.digits 10 data.toNat).length with h0 | hpos
  · rw [h0] at hend ⊢
    simpa using hend
  · rw [if_neg (by omega), hend]

/-- **The string**: the digits of the number, from the first one on. -/
theorem text_intToDecStr (data : UInt32) (str : ℕ → UInt8) (h : ∃ i, intToDecStr data str i = 0) :
    text (intToDecStr data str) h = ((Nat.digits 10 data.toNat).map digitChar).reverse := by
  apply text_eq
  · rw [List.length_reverse, List.length_map]
    exact intToDecStr_end data str
  · intro c hc
    obtain ⟨d, hd, rfl⟩ := List.mem_map.mp (List.mem_reverse.mp hc)
    exact digitChar_ne_zero (Nat.digits_lt_base (by simp) hd)
  · intro i hi
    rw [List.length_reverse, List.length_map] at hi
    rw [intToDecStr_apply, if_pos (by omega), intToDecStrEnded_apply _ _ (by omega)]
    simp [List.getElem_reverse]

/-- The digits of a number are read as it. -/
theorem parse_reverse_map {L : List ℕ} (h : ∀ d ∈ L, d < 10) :
    parse ((L.map digitChar).reverse) = Nat.ofDigits 10 L := by
  induction L with
  | nil => rfl
  | cons d L ih =>
    have hd : d < 10 := h d List.mem_cons_self
    have hL : ∀ d ∈ L, d < 10 := fun d hd => h d (List.mem_cons_of_mem _ hd)
    have hstep : parse ((L.map digitChar).reverse ++ [digitChar d]) =
        10 * parse ((L.map digitChar).reverse) + ((digitChar d).toNat - 48) := by
      rw [parse, List.foldl_append]
      rfl
    rw [List.map_cons, List.reverse_cons, hstep, ih hL, digitChar_toNat hd, Nat.ofDigits_cons]
    simp only [Nat.add_sub_cancel]
    omega

/-- A number but `0` is written as it is. -/
theorem isDecimal_digits {n : ℕ} (hn : n ≠ 0) :
    IsDecimal (((Nat.digits 10 n).map digitChar).reverse) n where
  digit c hc := by
    obtain ⟨d, hd, rfl⟩ := List.mem_map.mp (List.mem_reverse.mp hc)
    have hlt : d < 10 := Nat.digits_lt_base (by simp) hd
    rw [digitChar_toNat hlt]
    omega
  nonempty := by
    rw [Ne, List.reverse_eq_nil_iff, List.map_eq_nil_iff]
    exact Nat.digits_ne_nil_iff_ne_zero.mpr hn
  no_leading_zero hhead := by
    have hne : Nat.digits 10 n ≠ [] := Nat.digits_ne_nil_iff_ne_zero.mpr hn
    have hlast := Nat.getLast_digit_ne_zero 10 hn
    have hlt : (Nat.digits 10 n).getLast hne < 10 :=
      Nat.digits_lt_base (by simp) (List.getLast_mem hne)
    rw [List.head?_reverse, List.getLast?_map, List.getLast?_eq_getLast_of_ne_nil hne,
      Option.map_some, Option.some_inj] at hhead
    have := congrArg UInt8.toNat hhead
    rw [digitChar_toNat hlt] at this
    exact absurd (Nat.add_right_cancel (k := 0) this) hlast
  parse_eq := by
    rw [parse_reverse_map fun d hd => Nat.digits_lt_base (by simp) hd, Nat.ofDigits_digits]

/-- **What is written is the number** exactly where it is not `0`. -/
theorem intToDecStr_isDecimal_iff (data : UInt32) (str : ℕ → UInt8) :
    (∃ h, IsDecimal (text (intToDecStr data str) h) data.toNat) ↔ data ≠ 0 := by
  constructor
  · rintro ⟨h, hdec⟩ rfl
    apply hdec.nonempty
    rw [text_intToDecStr]
    rfl
  · intro hdata
    have hn : data.toNat ≠ 0 := fun he => hdata (UInt32.toNat_inj.mp he)
    refine ⟨⟨_, intToDecStr_end data str⟩, ?_⟩
    rw [text_intToDecStr]
    exact isDecimal_digits hn

/-- `0` is written as the empty string. -/
theorem intToDecStr_zero_fails :
    ¬ ∃ h, IsDecimal (text (intToDecStr 0 fun _ => 0xFF) h) 0 := by
  rintro ⟨h, hdec⟩
  apply hdec.nonempty
  rw [text_intToDecStr]
  rfl

end TcBle.Vendor
