import TcBle.Foundation.Flash
import Mathlib.Logic.Function.Basic

/-!
# A NOR flash behind a serial bus

The memory of a serial NOR flash chip is reached by frames of bytes, from the moment the chip is
selected to the moment it is deselected. A frame starts with an instruction; what it asks for is
done when the chip is deselected, if a frame of one byte, write enable, has come before. A write
then takes the chip some time, in which it only tells that it is busy.

## The model

The time is counted in bytes clocked over the bus; how long the `n`-th write takes is any function
(`delay`). A page program loads a buffer of a page, byte by byte and around its end, and writes the
buffer. Addresses are the three bytes of a frame. The status register says by `protects` which
addresses no write changes; what a write to it leaves is any function (`settles`).

## What is proved

* `programPage_eq` — a page program that stays in its page is a plain write.
* `execute_protected` — what is protected is changed by no frame but one to the status register.
* `frame_run` — a frame to a chip that is free is heard whole, and done at its end.
-/

namespace TcBle.Foundation

/-- A chip. -/
structure SerialFlash where
  /-- The memory. -/
  mem : Flash
  /-- The status register. -/
  status : UInt16
  /-- Whether a write is enabled. -/
  latch : Bool
  /-- For how many bytes more the chip is busy. -/
  busy : ℕ
  /-- What has come since the chip was selected; nothing when it is not, or does not listen. -/
  frame : Option (List UInt8)
  /-- The number of writes so far. -/
  writes : ℕ
  /-- The addresses that a status protects. -/
  protects : UInt16 → ℕ → Bool
  /-- The time the writes take. -/
  delay : ℕ → ℕ
  /-- What a write to the status register leaves, by its number, what was there and what is
  written. -/
  settles : ℕ → UInt16 → UInt16 → UInt16

namespace SerialFlash

/-- The number of bytes of a page. -/
def pageSize : ℕ := 256

/-- The number of bytes of a sector. -/
def sectorSize : ℕ := 4096

/-- The address of three bytes, the highest first. -/
def address (a b c : UInt8) : ℕ := a.toNat * 2 ^ 16 + b.toNat * 2 ^ 8 + c.toNat

/-- Loading a page's buffer from place `i` on, around its end. -/
def loadPage : (ℕ → UInt8) → ℕ → List UInt8 → ℕ → UInt8
  | buf, _, [] => buf
  | buf, i, b :: data => loadPage (Function.update buf (i % pageSize) b) (i + 1) data

/-- The bytes of the page at `addr` get those of the buffer. -/
def programPage (f : Flash) (addr : ℕ) (data : List UInt8) : Flash := fun a =>
  if a / pageSize = addr / pageSize then
    f a &&& loadPage (fun _ => 0xff) (addr % pageSize) data (a % pageSize)
  else f a

/-- The start of the sector of an address. -/
def sectorOf (addr : ℕ) : ℕ := addr / sectorSize * sectorSize

/-- No byte of a range is protected. -/
def Open (c : SerialFlash) (lo n : ℕ) : Prop := ∀ i < n, c.protects c.status (lo + i) = false

instance (c : SerialFlash) (lo n : ℕ) : Decidable (c.Open lo n) :=
  inferInstanceAs (Decidable (∀ i < n, _))

/-- A write has been started. -/
def started (c : SerialFlash) : SerialFlash :=
  { c with latch := false, busy := c.delay c.writes, writes := c.writes + 1 }

/-- The memory becomes `mem` by a write to `n` addresses from `lo` on, if it may. -/
def change (c : SerialFlash) (lo n : ℕ) (mem : Flash) : SerialFlash :=
  if c.latch then
    if c.Open lo n then { c with mem }.started else { c with latch := false }
  else c

/-- The status register is written. -/
def setStatus (c : SerialFlash) (status : UInt16) : SerialFlash :=
  if c.latch then { c with status := c.settles c.writes c.status status }.started else c

/-- What a frame asks for. -/
def execute (c : SerialFlash) : List UInt8 → SerialFlash
  | [0x06] => { c with latch := true }
  | 0x02 :: x :: y :: z :: b :: data =>
    let addr := address x y z
    c.change (addr / pageSize * pageSize) pageSize (programPage c.mem addr (b :: data))
  | [0x20, x, y, z] =>
    let addr := sectorOf (address x y z)
    c.change addr sectorSize (c.mem.erase addr sectorSize)
  | [0x01, l] => c.setStatus l.toUInt16
  | [0x01, l, h] => c.setStatus (l.toUInt16 ||| h.toUInt16 <<< 8)
  | _ => c

/-- What the chip puts on the bus while the byte after a frame is clocked. -/
def reply (c : SerialFlash) : List UInt8 → UInt8
  | 0x05 :: _ => c.status.toUInt8 &&& 0xfe ||| if c.busy = 0 then 0 else 1
  | 0x35 :: _ => (c.status >>> 8).toUInt8
  | 0x03 :: x :: y :: z :: rest => c.mem (address x y z + rest.length)
  | _ => 0xff

/-! ### The bus -/

/-- The chip is selected. -/
def select (c : SerialFlash) : SerialFlash := { c with frame := some [] }

/-- The chip is deselected. -/
def deselect (c : SerialFlash) : SerialFlash :=
  match c.frame with
  | some frame => { c.execute frame with frame := none }
  | none => c

/-- A byte is clocked. A chip that is busy does not listen to anything but a request for its
status. -/
def clock (b : UInt8) (c : SerialFlash) : SerialFlash × UInt8 :=
  match c.frame with
  | none => ({ c with busy := c.busy - 1 }, 0xff)
  | some [] =>
    let frame := if c.busy = 0 ∨ b = 0x05 then some [b] else none
    ({ c with frame, busy := c.busy - 1 }, 0xff)
  | some frame => ({ c with frame := some (frame ++ [b]), busy := c.busy - 1 }, c.reply frame)

/-- Bytes are clocked. -/
def clockAll (data : List UInt8) (c : SerialFlash) : SerialFlash :=
  data.foldl (fun c b => (c.clock b).1) c

variable {c : SerialFlash} {frame data : List UInt8}

/-! ### Pages -/

theorem loadPage_fit {i : ℕ} (h : i + data.length ≤ pageSize) (buf : ℕ → UInt8) (j : ℕ) :
    loadPage buf i data j = if i ≤ j then data.getD (j - i) (buf j) else buf j := by
  induction data generalizing i buf with
  | nil => simp [loadPage]
  | cons b data ih =>
    rw [List.length_cons] at h
    rw [loadPage, ih (by omega), Nat.mod_eq_of_lt (by omega)]
    obtain hlt | rfl | hgt := Nat.lt_trichotomy j i
    · rw [if_neg (by omega), if_neg (by omega), Function.update_of_ne (by omega)]
    · rw [if_neg (by omega), if_pos (le_refl j), Function.update_self, Nat.sub_self,
        List.getD_cons_zero]
    · have hsub : j - i = j - (i + 1) + 1 := by omega
      rw [if_pos (by omega), if_pos (by omega), Function.update_of_ne (by omega), hsub,
        List.getD_cons_succ]

/-- **A page program that stays in its page** is a plain write. -/
theorem programPage_eq (f : Flash) {addr : ℕ} (h : addr % pageSize + data.length ≤ pageSize) :
    programPage f addr data = f.program addr data := by
  funext a
  have haddr := Nat.div_add_mod addr pageSize
  have ha := Nat.div_add_mod a pageSize
  have hlt : a % pageSize < pageSize := Nat.mod_lt _ (by decide)
  unfold programPage
  by_cases hpage : a / pageSize = addr / pageSize
  · rw [hpage] at ha
    rw [if_pos hpage, loadPage_fit h, Flash.program]
    by_cases hle : addr ≤ a
    · rw [if_pos (by omega), if_pos hle, show a % pageSize - addr % pageSize = a - addr by omega]
    · rw [if_neg (by omega), if_neg hle, Flash.and_ff]
  · rw [if_neg hpage]
    refine (f.program_other ?_).symm
    by_contra hin
    refine hpage ?_
    simp only [pageSize] at *
    omega

/-- It leaves the other pages alone. -/
theorem programPage_other (f : Flash) {addr a : ℕ} (data : List UInt8)
    (h : a < addr / pageSize * pageSize ∨ addr / pageSize * pageSize + pageSize ≤ a) :
    programPage f addr data a = f a := by
  refine if_neg fun hpage => ?_
  simp only [pageSize] at *
  omega

/-! ### Frames -/

theorem clock_heard (b : UInt8) (hframe : c.frame = some frame) (hne : frame ≠ []) :
    c.clock b = ({ c with frame := some (frame ++ [b]), busy := c.busy - 1 }, c.reply frame) := by
  obtain ⟨x, rest, rfl⟩ := List.exists_cons_of_ne_nil hne
  rw [clock, hframe]

theorem clockAll_append (data data' : List UInt8) (c : SerialFlash) :
    c.clockAll (data ++ data') = (c.clockAll data).clockAll data' := List.foldl_append

/-- The bytes of a frame that is heard. -/
theorem clockAll_heard (hframe : c.frame = some frame) (hne : frame ≠ []) (data : List UInt8) :
    c.clockAll data =
      { c with frame := some (frame ++ data), busy := c.busy - data.length } := by
  induction data generalizing c frame with
  | nil =>
    rw [clockAll, List.foldl_nil, List.append_nil, ← hframe]
    rfl
  | cons b data ih =>
    rw [clockAll, List.foldl_cons, clock_heard b hframe hne]
    refine (ih rfl (by simp)).trans ?_
    rw [List.append_assoc, List.singleton_append, List.length_cons, Nat.sub_sub, Nat.add_comm 1]

/-- The first byte of a frame to a chip that is free. -/
theorem clock_select (hfree : c.busy = 0) (b : UInt8) :
    (c.select.clock b).1 = { c with frame := some [b] } := by
  simp only [select, clock, hfree, true_or, if_true, Nat.zero_sub]

theorem change_frame (c : SerialFlash) (heard : Option (List UInt8)) (lo n : ℕ) (mem : Flash) :
    { c with frame := heard }.change lo n mem = { c.change lo n mem with frame := heard } := by
  unfold change
  by_cases hlatch : c.latch = true
  · rw [if_pos hlatch, if_pos hlatch]
    by_cases hopen : c.Open lo n
    · rw [if_pos hopen, if_pos (show Open { c with frame := heard } lo n from hopen)]
      rfl
    · rw [if_neg hopen, if_neg (show ¬ Open { c with frame := heard } lo n from hopen)]
  · rw [if_neg hlatch, if_neg hlatch]

theorem setStatus_frame (c : SerialFlash) (heard : Option (List UInt8)) (status : UInt16) :
    { c with frame := heard }.setStatus status =
      { c.setStatus status with frame := heard } := by
  unfold setStatus
  split_ifs <;> rfl

/-- What a frame asks for does not depend on where the bus is. -/
theorem execute_frame (c : SerialFlash) (heard : Option (List UInt8)) (frame : List UInt8) :
    { c with frame := heard }.execute frame = { c.execute frame with frame := heard } := by
  unfold execute
  split
  · rfl
  · exact change_frame c heard _ _ _
  · exact change_frame c heard _ _ _
  · exact setStatus_frame c heard _
  · exact setStatus_frame c heard _
  · rfl

theorem reply_frame (c : SerialFlash) (heard : Option (List UInt8)) (frame : List UInt8) :
    { c with frame := heard }.reply frame = c.reply frame := by
  unfold reply
  split <;> rfl

/-- A frame that only asks changes nothing. -/
theorem execute_quiet {b : UInt8} (hb : b ∉ [0x06, 0x02, 0x20, 0x01]) (data : List UInt8) :
    c.execute (b :: data) = c := by
  unfold execute
  split <;> simp_all

theorem change_busy (hbusy : c.busy = 0) {bound : ℕ} (hdelay : ∀ n, c.delay n ≤ bound) (lo n : ℕ)
    (mem : Flash) : (c.change lo n mem).busy ≤ bound := by
  have hzero : c.busy ≤ bound := hbusy.le.trans (Nat.zero_le _)
  unfold change
  split_ifs
  · exact hdelay _
  · exact hzero
  · exact hzero

/-- From `c` to `c'` no byte that is protected has changed, nor what protects it. -/
structure Protected (c c' : SerialFlash) : Prop where
  /-- The bytes. -/
  mem : ∀ a, c.protects c.status a = true → c'.mem a = c.mem a
  /-- The status register. -/
  status : c'.status = c.status
  /-- What it protects. -/
  protects : c'.protects = c.protects

theorem Protected.refl (c : SerialFlash) : Protected c c := ⟨fun _ _ => rfl, rfl, rfl⟩

theorem Protected.trans {c c' c'' : SerialFlash} (h : Protected c c') (h' : Protected c' c'') :
    Protected c c'' := by
  refine ⟨fun a ha => ?_, h'.status.trans h.status, h'.protects.trans h.protects⟩
  have ha' : c'.protects c'.status a = true := by rwa [h.status, h.protects]
  exact (h'.mem a ha').trans (h.mem a ha)

theorem change_protected (c : SerialFlash) {lo n : ℕ} {mem : Flash}
    (hmem : ∀ a, a < lo ∨ lo + n ≤ a → mem a = c.mem a) : Protected c (c.change lo n mem) := by
  unfold change
  split_ifs with _ hopen
  · refine ⟨fun a ha => hmem a ?_, rfl, rfl⟩
    by_contra hin
    have hlo : lo ≤ a := by omega
    have hfalse := hopen (a - lo) (by omega)
    rw [Nat.add_sub_cancel' hlo, ha] at hfalse
    cases hfalse
  · exact ⟨fun _ _ => rfl, rfl, rfl⟩
  · exact .refl _

/-- **What is protected** is changed by no frame but one to the status register. -/
theorem execute_protected (c : SerialFlash) {cmd : UInt8} (hcmd : cmd ≠ 0x01)
    (data : List UInt8) : Protected c (c.execute (cmd :: data)) := by
  unfold execute
  split
  · exact ⟨fun _ _ => rfl, rfl, rfl⟩
  · exact change_protected c fun a ha => programPage_other _ _ ha
  · exact change_protected c fun a ha => c.mem.erase_other ha
  · simp_all
  · simp_all
  · exact .refl _

theorem setStatus_busy (hbusy : c.busy = 0) {bound : ℕ} (hdelay : ∀ n, c.delay n ≤ bound)
    (status : UInt16) : (c.setStatus status).busy ≤ bound := by
  unfold setStatus
  split_ifs
  · exact hdelay _
  · exact hbusy.le.trans (Nat.zero_le _)

/-- A frame keeps a chip that is free no longer busy than a write takes. -/
theorem execute_busy (hbusy : c.busy = 0) {bound : ℕ} (hdelay : ∀ n, c.delay n ≤ bound)
    (frame : List UInt8) : (c.execute frame).busy ≤ bound := by
  unfold execute
  split
  · exact hbusy.le.trans (Nat.zero_le _)
  · exact change_busy hbusy hdelay _ _ _
  · exact change_busy hbusy hdelay _ _ _
  · exact setStatus_busy hbusy hdelay _
  · exact setStatus_busy hbusy hdelay _
  · exact hbusy.le.trans (Nat.zero_le _)

theorem change_delay (c : SerialFlash) (lo n : ℕ) (mem : Flash) :
    (c.change lo n mem).delay = c.delay := by
  unfold change
  split_ifs <;> rfl

theorem setStatus_delay (c : SerialFlash) (status : UInt16) :
    (c.setStatus status).delay = c.delay := by
  unfold setStatus
  split_ifs <;> rfl

theorem execute_delay (c : SerialFlash) (frame : List UInt8) :
    (c.execute frame).delay = c.delay := by
  unfold execute
  split
  · rfl
  · exact change_delay c _ _ _
  · exact change_delay c _ _ _
  · exact setStatus_delay c _
  · exact setStatus_delay c _
  · rfl

/-- **A frame to a chip that is free** is heard whole, and done at its end. -/
theorem frame_run (hfree : c.busy = 0) (b : UInt8) (data : List UInt8) :
    ((c.select.clock b).1.clockAll data).deselect =
      { c.execute (b :: data) with frame := none } := by
  rw [clock_select hfree, clockAll_heard rfl (by simp), deselect]
  have hbusy : c.busy - data.length = c.busy := by omega
  simp only [List.singleton_append, hbusy]
  rw [execute_frame]

end SerialFlash

end TcBle.Foundation
