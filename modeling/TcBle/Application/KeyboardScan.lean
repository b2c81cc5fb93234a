import TcBle.Application.KeyboardGhost
import TcBle.Foundation.CyclicRing
import TcBle.Foundation.Run

/-!
# The scan of the keyboard

`application/keyboard/keyboard.c`: a scanned matrix goes through `key_debounce_filter`, and where it
has changed into a ring of four matrices, from which `kb_scan_key_value` reads one at a time.

## The model

A call of `kb_scan_key_value` comes with the matrix that `kb_scan_row` has read. The pointers of the
ring are `int`s, here the words of their bits. What is delivered is the matrix that goes to
`kb_remap_key_code`. Repeated keys are left out, as in every configuration of the repository.

The account of a run (`Account`) keeps what the ring is for: the changes in order, those that have left
the ring, each with whether it was delivered, and those that are still pending.

## What is proved

* `keyDebounceFilter_bit` and `keyDebounceFilter_changed` — the filter, bit by bit, and its return value.
* `Ring.scan` — a call does to the ring what it does to the account.
* `keyboard_run` — every call of every run.
-/

namespace TcBle.Application

open TcBle.Foundation TcBle.Foundation.Run

variable {n : ℕ}

/-- `KB_NUMLOCK_STATUS_INVALID`. -/
def kbNumlockStatusInvalid : UInt32 := (1 : UInt32) <<< 7

/-- `KB_NUMLOCK_STATUS_POWERON`. -/
def kbNumlockStatusPoweron : UInt32 := (1 : UInt32) <<< 15

/-- What `key_debounce_filter` keeps. -/
structure Debounce (n : ℕ) where
  /-- `mtrx_pre`. -/
  mtrxPre : KeyMatrix n
  /-- `mtrx_last`. -/
  mtrxLast : KeyMatrix n

/-- The row that is valid, from the one that was valid last and the last two that were scanned. -/
def debounceRow (last pre tmp : UInt32) : UInt32 :=
  (~~~last &&& (pre &&& tmp)) ||| (last &&& (pre ||| tmp))

/-- `key_debounce_filter`: what it returns, the matrix it leaves in `mtrx_cur`, and what it keeps. -/
def keyDebounceFilter (mtrxCur : KeyMatrix n) (filtEn : Bool) (d : Debounce n) :
    Bool × KeyMatrix n × Debounce n :=
  let cur : KeyMatrix n := fun i =>
    if filtEn then debounceRow (d.mtrxLast i) (d.mtrxPre i) (mtrxCur i) else mtrxCur i
  (decide (∃ i, cur i ≠ d.mtrxLast i), cur, ⟨mtrxCur, cur⟩)

/-- The keyboard. -/
structure Keyboard (n : ℕ) where
  /-- The filter. -/
  debounce : Debounce n
  /-- `matrix_buff`. -/
  matrixBuff : ℕ → KeyMatrix n
  /-- `matrix_wptr`. -/
  matrixWptr : UInt32
  /-- `matrix_rptr`. -/
  matrixRptr : UInt32

/-- A call of `kb_scan_key_value`. -/
structure ScanCall (n : ℕ) where
  /-- `numlock_status`. -/
  numlockStatus : UInt32
  /-- `read_key`. -/
  readKey : Bool
  /-- `pressed_matrix`, as it was scanned. -/
  pressed : KeyMatrix n

/-- What a call gives. -/
structure ScanResult (n : ℕ) where
  /-- What is returned. -/
  ret : Bool
  /-- `key_changed`. -/
  keyChanged : Bool
  /-- The matrix that is mapped to `kb_event`. -/
  delivered : Option (KeyMatrix n)

namespace Keyboard

/-- The keyboard after a start. -/
def boot : Keyboard n := ⟨⟨fun _ => 0, fun _ => 0⟩, fun _ _ => 0, 0, 0⟩

/-- A changed matrix goes into the ring; one too many, and the oldest is overwritten. -/
def pushMatrix (m : KeyMatrix n) (s : Keyboard n) : Keyboard n :=
  let s := { s with
    matrixBuff := Function.update s.matrixBuff (s.matrixWptr &&& 3).toNat m
    matrixWptr := (s.matrixWptr + 1) &&& 7 }
  if (s.matrixWptr - s.matrixRptr) &&& 7 > 4 then { s with matrixRptr := (s.matrixWptr - 4) &&& 7 }
  else s

/-- The oldest matrix is read. -/
def readMatrix (s : Keyboard n) : Keyboard n × Option (KeyMatrix n) :=
  if s.matrixWptr = s.matrixRptr then (s, none)
  else ({ s with matrixRptr := (s.matrixRptr + 1) &&& 7 },
    some (s.matrixBuff (s.matrixRptr &&& 3).toNat))

end Keyboard

namespace ScanCall

/-- The filter is enabled. -/
def filtered (c : ScanCall n) : Bool := c.numlockStatus &&& kbNumlockStatusPoweron = 0

/-- An empty key is returned, and nothing is read. -/
def invalid (c : ScanCall n) : Bool := c.numlockStatus &&& kbNumlockStatusInvalid ≠ 0

/-- A matrix is read from the ring, if there is one. -/
def reads (c : ScanCall n) : Bool := !c.invalid && c.readKey

/-- The sample that goes to the filter; `rmGhostKeyEn` is `KB_RM_GHOST_KEY_EN`. -/
def sample (rmGhostKeyEn : Bool) (c : ScanCall n) : KeyMatrix n :=
  if rmGhostKeyEn then kbRmvGhostKey c.pressed else c.pressed

end ScanCall

namespace Keyboard

/-- The part of `kb_scan_key_value` up to the read out, and `key_changed`. -/
def insertMatrix (sample : KeyMatrix n) (filtEn : Bool) (s : Keyboard n) : Keyboard n × Bool :=
  let f := keyDebounceFilter sample filtEn s.debounce
  let s := { s with debounce := f.2.2 }
  (if f.1 then s.pushMatrix f.2.1 else s, f.1)

/-- `kb_scan_key_value`. -/
def kbScanKeyValue (rmGhostKeyEn : Bool) (c : ScanCall n) (s : Keyboard n) :
    Keyboard n × ScanResult n :=
  let (s, keyChanged) := s.insertMatrix (c.sample rmGhostKeyEn) c.filtered
  if c.invalid then (s, ⟨true, keyChanged, none⟩)
  else if !c.readKey then (s, ⟨false, keyChanged, none⟩)
  else
    let (s, m) := s.readMatrix
    (s, ⟨m.isSome, keyChanged, m⟩)

end Keyboard

/-! ### The filter -/

/-- A column of a row is pressed. -/
def bit (row : UInt32) (c : ℕ) : Bool := row.toNat.testBit c

theorem eq_of_bit {a b : UInt32} (h : ∀ c, bit a c = bit b c) : a = b :=
  UInt32.toNat_inj.mp (Nat.eq_of_testBit_eq h)

/-- The formula of the filter: where the last two samples agree, it is what they say, and elsewhere
what it was. -/
theorem bit_debounceRow (last pre tmp : UInt32) (c : ℕ) :
    bit (debounceRow last pre tmp) c =
      if bit pre c = bit tmp c then bit tmp c else bit last c := by
  unfold bit debounceRow
  simp only [UInt32.toNat_or, UInt32.toNat_and, Nat.testBit_or, Nat.testBit_and]
  rcases lt_or_ge c 32 with hc | hc
  · rw [testBit_not last hc]
    cases last.toNat.testBit c <;> cases pre.toNat.testBit c <;> cases tmp.toNat.testBit c <;> rfl
  · simp [testBit_of_le _ hc]

/-- **The filter, bit by bit**: a bit changes exactly if the last two samples both differ from it. -/
theorem keyDebounceFilter_bit (cur : KeyMatrix n) (d : Debounce n) (i : Fin n) (c : ℕ) :
    bit ((keyDebounceFilter cur true d).2.1 i) c ≠ bit (d.mtrxLast i) c ↔
      bit (d.mtrxPre i) c ≠ bit (d.mtrxLast i) c ∧ bit (cur i) c ≠ bit (d.mtrxLast i) c := by
  show bit (debounceRow (d.mtrxLast i) (d.mtrxPre i) (cur i)) c ≠ _ ↔ _
  rw [bit_debounceRow]
  cases bit (d.mtrxLast i) c <;> cases bit (d.mtrxPre i) c <;> cases bit (cur i) c <;> simp

/-- **The return value** of the filter: some bit changes. -/
theorem keyDebounceFilter_changed (cur : KeyMatrix n) (filtEn : Bool) (d : Debounce n) :
    (keyDebounceFilter cur filtEn d).1 = true ↔
      ∃ i c, bit ((keyDebounceFilter cur filtEn d).2.1 i) c ≠ bit (d.mtrxLast i) c := by
  refine decide_eq_true_iff.trans (exists_congr fun i => ?_)
  constructor
  · intro hne
    by_contra hnone
    exact hne (eq_of_bit fun c => not_not.mp (not_exists.mp hnone c))
  · rintro ⟨c, hc⟩ heq
    exact hc (congrArg (bit · c) heq)

/-! ### The ring -/

/-- The account of a run. -/
structure Account (n : ℕ) where
  /-- The last sample. -/
  raw : KeyMatrix n
  /-- The matrix that was reported last. -/
  reported : KeyMatrix n
  /-- The changes, in order. -/
  changes : List (KeyMatrix n)
  /-- Those that have left the ring, each with whether it was delivered. -/
  removed : List (Bool × KeyMatrix n)
  /-- Those that have not. -/
  pending : List (KeyMatrix n)

namespace Account

/-- Nothing has happened. -/
def init : Account n := ⟨fun _ => 0, fun _ => 0, [], [], []⟩

/-- A change is pending. With four of them before, the oldest is given up. -/
def change (m : KeyMatrix n) (a : Account n) : Account n :=
  if a.pending.length < 4 then
    { a with changes := a.changes ++ [m], pending := a.pending ++ [m] }
  else
    { a with
      changes := a.changes ++ [m]
      removed := a.removed ++ a.pending.head?.toList.map (false, ·)
      pending := a.pending.tail ++ [m] }

/-- The oldest is delivered. -/
def deliver (a : Account n) : Account n :=
  { a with
    removed := a.removed ++ a.pending.head?.toList.map (true, ·)
    pending := a.pending.tail }

/-- The filter reports `m` for a sample. -/
def report (sample m : KeyMatrix n) (a : Account n) : Account n :=
  let b := { a with raw := sample, reported := m }
  if ∃ i, m i ≠ a.reported i then b.change m else b

/-- What a call does, if the filter reports `m`. -/
def scan (sample m : KeyMatrix n) (reads : Bool) (a : Account n) : Account n :=
  if reads then (a.report sample m).deliver else a.report sample m

@[simp] theorem report_raw (sample m : KeyMatrix n) (a : Account n) :
    (a.report sample m).raw = sample := by
  rw [report, change]
  split_ifs <;> rfl

@[simp] theorem report_reported (sample m : KeyMatrix n) (a : Account n) :
    (a.report sample m).reported = m := by
  rw [report, change]
  split_ifs <;> rfl

@[simp] theorem scan_raw (sample m : KeyMatrix n) (reads : Bool) (a : Account n) :
    (a.scan sample m reads).raw = sample := by
  cases reads <;> exact report_raw sample m a

@[simp] theorem scan_reported (sample m : KeyMatrix n) (reads : Bool) (a : Account n) :
    (a.scan sample m reads).reported = m := by
  cases reads <;> exact report_reported sample m a

end Account

/-- The counters and the slots are those of a ring with these matrices. -/
def Ring (s : Keyboard n) (pending : List (KeyMatrix n)) : Prop :=
  CyclicRing.Holds 4 8 s.matrixBuff s.matrixWptr.toNat s.matrixRptr.toNat pending

/-- A mask takes a pointer modulo the number of slots. -/
theorem toNat_and_three (x : UInt32) : (x &&& 3).toNat = x.toNat % 4 :=
  (UInt32.toNat_and x 3).trans (Nat.and_two_pow_sub_one_eq_mod x.toNat 2)

/-- A mask takes a pointer modulo its period. -/
theorem toNat_and_seven (x : UInt32) : (x &&& 7).toNat = x.toNat % 8 :=
  (UInt32.toNat_and x 7).trans (Nat.and_two_pow_sub_one_eq_mod x.toNat 3)

/-- The next pointer. -/
theorem toNat_next (x : UInt32) : ((x + 1) &&& 7).toNat = (x.toNat + 1) % 8 := by
  rw [toNat_and_seven, UInt32.toNat_add, UInt32.toNat_one]
  omega

/-- **A change** does to the ring what it does to the account. -/
theorem Ring.change {s : Keyboard n} {a : Account n} (h : Ring s a.pending) (m : KeyMatrix n) :
    Ring (s.pushMatrix m) (a.change m).pending := by
  have hr := h.rptr_lt
  have hw := h.wptr_lt
  have hwptr := h.wptr
  have hroom := h.room
  have hslot : (s.matrixWptr &&& 3).toNat = s.matrixWptr.toNat % 4 := toNat_and_three _
  have huse : (((s.matrixWptr + 1) &&& 7) - s.matrixRptr &&& 7).toNat = a.pending.length + 1 := by
    rw [toNat_and_seven, UInt32.toNat_sub, toNat_next]
    omega
  rw [Keyboard.pushMatrix, Account.change]
  by_cases hfull : a.pending.length < 4
  · have hnot : ¬ ((s.matrixWptr + 1) &&& 7) - s.matrixRptr &&& 7 > 4 := by
      rw [gt_iff_lt, UInt32.lt_iff_toNat_lt, huse]
      show ¬ 4 < _
      omega
    rw [if_neg hnot, if_pos hfull]
    show CyclicRing.Holds 4 8 (Function.update _ _ _) _ _ _
    rw [hslot, toNat_next]
    exact CyclicRing.Holds.push (by simp) h hfull m
  · have hover : ((s.matrixWptr + 1) &&& 7) - s.matrixRptr &&& 7 > 4 := by
      rw [gt_iff_lt, UInt32.lt_iff_toNat_lt, huse]
      show 4 < _
      omega
    have hgive : ((((s.matrixWptr + 1) &&& 7) - 4) &&& 7).toNat = (s.matrixRptr.toNat + 1) % 8 := by
      rw [toNat_and_seven, UInt32.toNat_sub, toNat_next]
      show (2 ^ 32 - 4 + _) % 2 ^ 32 % 8 = _
      omega
    rw [if_pos hover, if_neg hfull]
    show CyclicRing.Holds 4 8 (Function.update _ _ _) _ _ _
    rw [hslot, toNat_next, hgive]
    exact CyclicRing.Holds.shove (by simp) h (by simp) (by omega) m

/-- **A read** delivers the oldest matrix. -/
theorem Ring.deliver {s : Keyboard n} {a : Account n} (h : Ring s a.pending) :
    s.readMatrix.2 = a.pending.head? ∧ Ring s.readMatrix.1 a.deliver.pending := by
  have hempty : s.matrixWptr = s.matrixRptr ↔ a.pending = [] := by
    rw [← UInt32.toNat_inj]
    exact h.eq_nil_iff (h.room.trans_lt (by simp))
  rw [Keyboard.readMatrix, Account.deliver]
  cases hp : a.pending with
  | nil =>
    rw [if_pos (hempty.mpr hp)]
    rw [hp] at h
    exact ⟨rfl, h⟩
  | cons m rest =>
    rw [if_neg (mt hempty.mp (by rw [hp]; exact List.cons_ne_nil _ _))]
    rw [hp] at h
    refine ⟨?_, ?_⟩
    · rw [toNat_and_three]
      exact congrArg some (h.slots 0 (Nat.zero_lt_succ _))
    · have hdrop := CyclicRing.Holds.drop (by simp) h (n := 1) (Nat.succ_le_succ (Nat.zero_le _))
      rw [← toNat_next] at hdrop
      exact hdrop

/-! ### The calls -/

/-- A call, for the keyboard and for the account. -/
def scanStep (rmGhostKeyEn : Bool) (t : Keyboard n × Account n) (c : ScanCall n) :
    Keyboard n × Account n :=
  let s := (t.1.kbScanKeyValue rmGhostKeyEn c).1
  (s, t.2.scan (c.sample rmGhostKeyEn) s.debounce.mtrxLast c.reads)

/-- A call is right: a bit that is reported changes exactly if the last two samples both differ from
it; the indication is given exactly if some bit changes; the oldest of the changes that are pending is
delivered, if one is to be read. -/
structure ScanRight (rmGhostKeyEn : Bool) (t : Keyboard n × Account n) (c : ScanCall n) : Prop where
  /-- The filter. -/
  bit : ∀ i b, bit ((scanStep rmGhostKeyEn t c).2.reported i) b ≠ bit (t.2.reported i) b ↔
    bit (t.2.raw i) b ≠ bit (t.2.reported i) b ∧
      bit (c.sample rmGhostKeyEn i) b ≠ bit (t.2.reported i) b
  /-- The indication. -/
  indicated : (t.1.kbScanKeyValue rmGhostKeyEn c).2.keyChanged = true ↔
    ∃ i b, Application.bit ((scanStep rmGhostKeyEn t c).2.reported i) b ≠
      Application.bit (t.2.reported i) b
  /-- The ring. -/
  delivered : (t.1.kbScanKeyValue rmGhostKeyEn c).2.delivered =
    if c.reads then (t.2.report (c.sample rmGhostKeyEn)
      (scanStep rmGhostKeyEn t c).2.reported).pending.head? else none
  /-- What is returned. -/
  ret : (t.1.kbScanKeyValue rmGhostKeyEn c).2.ret =
    (c.invalid || (t.1.kbScanKeyValue rmGhostKeyEn c).2.delivered.isSome)

/-- The keyboard is as the account says. -/
structure Tracks (t : Keyboard n × Account n) : Prop where
  /-- The ring. -/
  ring : Ring t.1 t.2.pending
  /-- The last sample. -/
  raw : t.1.debounce.mtrxPre = t.2.raw
  /-- The matrix that was reported last. -/
  reported : t.1.debounce.mtrxLast = t.2.reported
  /-- Every change has left the ring, or is pending. -/
  changes : t.2.removed.map Prod.snd ++ t.2.pending = t.2.changes

theorem Account.change_changes {a : Account n}
    (h : a.removed.map Prod.snd ++ a.pending = a.changes) (m : KeyMatrix n) :
    (a.change m).removed.map Prod.snd ++ (a.change m).pending = (a.change m).changes := by
  rw [Account.change]
  split
  · rw [← h, List.append_assoc]
  · rw [← h]
    cases a.pending <;> simp

theorem Account.deliver_changes {a : Account n}
    (h : a.removed.map Prod.snd ++ a.pending = a.changes) :
    a.deliver.removed.map Prod.snd ++ a.deliver.pending = a.deliver.changes := by
  rw [Account.deliver, ← h]
  cases a.pending <;> simp

@[simp] theorem Keyboard.pushMatrix_debounce (s : Keyboard n) (m : KeyMatrix n) :
    (s.pushMatrix m).debounce = s.debounce := by
  rw [Keyboard.pushMatrix]
  split <;> rfl

@[simp] theorem Keyboard.readMatrix_debounce (s : Keyboard n) :
    s.readMatrix.1.debounce = s.debounce := by
  rw [Keyboard.readMatrix]
  split <;> rfl

/-- What the filter keeps after the first part of a call. -/
theorem Keyboard.insertMatrix_debounce (s : Keyboard n) (sample : KeyMatrix n) (filtEn : Bool) :
    (s.insertMatrix sample filtEn).1.debounce =
      (keyDebounceFilter sample filtEn s.debounce).2.2 := by
  rw [Keyboard.insertMatrix]
  dsimp only
  split
  · rw [Keyboard.pushMatrix_debounce]
  · rfl

/-- **The first part of a call**: the filter, and the ring. -/
theorem Tracks.insert {t : Keyboard n × Account n} (h : Tracks t) (sample : KeyMatrix n) :
    Tracks ((t.1.insertMatrix sample true).1,
      t.2.report sample (keyDebounceFilter sample true t.1.debounce).2.1) := by
  have hring : Ring { t.1 with debounce := (keyDebounceFilter sample true t.1.debounce).2.2 }
      t.2.pending := h.ring
  have hflag : (keyDebounceFilter sample true t.1.debounce).1 =
      decide (∃ i, (keyDebounceFilter sample true t.1.debounce).2.1 i ≠ t.2.reported i) := by
    rw [← h.reported]
    rfl
  have hdeb := t.1.insertMatrix_debounce sample true
  refine ⟨?_, ?_, ?_, ?_⟩
  · rw [Keyboard.insertMatrix, Account.report, hflag]
    split
    case isTrue hch =>
      rw [if_pos (of_decide_eq_true hch)]
      exact Ring.change (a := { t.2 with raw := sample, reported := _ }) hring _
    case isFalse hch =>
      rw [if_neg fun he => hch (decide_eq_true he)]
      exact hring
  · rw [hdeb, Account.report_raw]
    rfl
  · rw [hdeb, Account.report_reported]
    rfl
  · rw [Account.report]
    split
    · exact Account.change_changes (a := { t.2 with raw := sample, reported := _ }) h.changes _
    · exact h.changes

/-- **One call**. -/
theorem Tracks.step {t : Keyboard n × Account n} (h : Tracks t) (rmGhostKeyEn : Bool)
    {c : ScanCall n} (hc : c.filtered = true) :
    ScanRight rmGhostKeyEn t c ∧ Tracks (scanStep rmGhostKeyEn t c) := by
  set sample := c.sample rmGhostKeyEn with hsample
  have hins := h.insert sample
  have hkeep := t.1.insertMatrix_debounce sample true
  -- what the call leaves and gives, by whether it reads
  have hcall : t.1.kbScanKeyValue rmGhostKeyEn c =
      if c.reads then
        ((t.1.insertMatrix sample true).1.readMatrix.1,
          ⟨(t.1.insertMatrix sample true).1.readMatrix.2.isSome, (t.1.insertMatrix sample true).2,
            (t.1.insertMatrix sample true).1.readMatrix.2⟩)
      else
        ((t.1.insertMatrix sample true).1, ⟨c.invalid, (t.1.insertMatrix sample true).2, none⟩) := by
    rw [Keyboard.kbScanKeyValue, hc, ← hsample, ScanCall.reads]
    cases c.invalid <;> cases c.readKey <;> rfl
  have hlast : (t.1.kbScanKeyValue rmGhostKeyEn c).1.debounce.mtrxLast =
      (keyDebounceFilter sample true t.1.debounce).2.1 := by
    rw [hcall]
    split
    · rw [Keyboard.readMatrix_debounce, hkeep]
      rfl
    · rw [hkeep]
      rfl
  have hreported : (scanStep rmGhostKeyEn t c).2.reported =
      (keyDebounceFilter sample true t.1.debounce).2.1 := by
    rw [scanStep, Account.scan_reported, hlast]
  have hread := hins.ring.deliver
  refine ⟨⟨?_, ?_, ?_, ?_⟩, ?_⟩
  · intro i b
    rw [hreported, ← h.reported, ← h.raw]
    exact keyDebounceFilter_bit sample t.1.debounce i b
  · rw [hreported, ← h.reported, ← keyDebounceFilter_changed, hcall]
    split <;> rfl
  · rw [hreported, hcall]
    split
    · exact hread.1
    · rfl
  · rw [hcall]
    split
    case isTrue hr =>
      have hvalid : c.invalid = false := by
        rw [ScanCall.reads, Bool.and_eq_true, Bool.not_eq_true'] at hr
        exact hr.1
      rw [hvalid, Bool.false_or]
    case isFalse => exact (Bool.or_false _).symm
  · rw [scanStep, hlast, hcall, Account.scan]
    split
    · refine ⟨hread.2, ?_, ?_, Account.deliver_changes hins.changes⟩
      · rw [Keyboard.readMatrix_debounce]
        exact hins.raw
      · rw [Keyboard.readMatrix_debounce]
        exact hins.reported
    · exact hins

/-- **The keyboard**: in every run of calls with the filter enabled, from a start, each call is right. What
was delivered or given up, and what is pending, are the changes in order; at most four are pending. -/
theorem keyboard_run (rmGhostKeyEn : Bool) (calls : List (ScanCall n))
    (hcalls : ∀ c ∈ calls, c.filtered = true) :
    Along (scanStep rmGhostKeyEn) (ScanRight rmGhostKeyEn) (Keyboard.boot, Account.init) calls ∧
      (let a := (calls.foldl (scanStep rmGhostKeyEn) (Keyboard.boot, Account.init)).2
      a.removed.map Prod.snd ++ a.pending = a.changes ∧ a.pending.length ≤ 4) := by
  have hboot : Tracks ((Keyboard.boot, Account.init) : Keyboard n × Account n) :=
    ⟨CyclicRing.holds_nil (Nat.zero_lt_succ 7), rfl, rfl, rfl⟩
  have hall : Along (scanStep rmGhostKeyEn) (fun _ c => c.filtered = true)
      ((Keyboard.boot, Account.init) : Keyboard n × Account n) calls :=
    along_iff.mpr fun pre c post he => hcalls c (by simp [he])
  constructor
  · have hright : Along (scanStep rmGhostKeyEn) (ScanRight rmGhostKeyEn)
        (Keyboard.boot, Account.init) calls ↔
          Along (scanStep rmGhostKeyEn) (fun _ _ => True) (Keyboard.boot, Account.init) calls :=
      Along.congr (fun t c (h : Tracks t) hc => iff_of_true (h.step rmGhostKeyEn hc).1 trivial)
        (fun t c h hc _ => (h.step rmGhostKeyEn hc).2) hboot hall
    exact hright.mpr (along_iff.mpr fun _ _ _ _ => trivial)
  · have hend : Tracks (calls.foldl (scanStep rmGhostKeyEn) (Keyboard.boot, Account.init)) :=
      Along.induction (P := fun _ t => Tracks t) hboot
        (fun _ _ h hc => (h.step rmGhostKeyEn hc).2) hall
    exact ⟨hend.changes, hend.ring.room⟩

/-- Key 0 is pressed, for two scans, and released again, with a read at the end. -/
theorem keyboard_press :
    let call : UInt32 → Bool → ScanCall 1 := fun row read => ⟨0, read, fun _ => row⟩
    let calls := [call 1 false, call 1 false, call 0 false, call 0 true]
    Along (scanStep false) (ScanRight false) (Keyboard.boot, Account.init) calls ∧
      (let a := (calls.foldl (scanStep false) (Keyboard.boot, Account.init)).2
      a.removed.map Prod.snd ++ a.pending = a.changes ∧ a.pending.length ≤ 4) :=
  keyboard_run false _ (by decide)

end TcBle.Application
