import Mathlib.Algebra.Ring.Nat
import Mathlib.Data.List.GetD
import Mathlib.Order.Nat
import Mathlib.Tactic.Common

/-!
# What the HCI transport modules share

The byte-stream macros of `hci_tr_def.h`, the system timer, and the constants of the
HCI packet types. A pointer into a buffer is the memory seen from it, a function from
offsets to bytes, so that a read past the bytes received gives whatever the buffer
holds there; `bytes p n` are the `n` bytes a pointer points to.
-/

namespace TcBle.HciTransport

/-- The memory seen from a pointer. -/
abbrev Mem := ℕ → UInt8

/-- The pointer `p + n`. -/
def adv (p : Mem) (n : ℕ) : Mem := fun i => p (i + n)

/-- The `n` bytes that `p` points to. -/
def bytes (p : Mem) (n : ℕ) : List UInt8 := (List.range n).map p

/-- `memcpy(p + at, data, length of data)`. -/
def memcpy (p : Mem) (pos : ℕ) (data : List UInt8) : Mem := fun i =>
  if pos ≤ i then data.getD (i - pos) (p i) else p i

/-- A buffer that holds `data` and, after it, what `rest` holds there. -/
def buffer (data : List UInt8) (rest : Mem) : Mem := memcpy rest 0 data

/-- `BYTES_TO_UINT16`. -/
def u16At (p : Mem) : ℕ := (p 0).toNat + (p 1).toNat * 2 ^ 8

/-- `BYTES_TO_UINT32`. -/
def u32At (p : Mem) : ℕ :=
  (p 0).toNat + (p 1).toNat * 2 ^ 8 + (p 2).toNat * 2 ^ 16 + (p 3).toNat * 2 ^ 24

/-- The subtraction of a `u32`. -/
def subU32 (a b : ℕ) : ℕ := (a + (2 ^ 32 - b % 2 ^ 32)) % 2 ^ 32

theorem subU32_of_le {a b : ℕ} (h : b ≤ a) (ha : a < 2 ^ 32) : subU32 a b = a - b := by
  unfold subU32
  omega

/-! ### Buffers -/

@[simp] theorem adv_zero (p : Mem) : adv p 0 = p := rfl

theorem adv_adv (p : Mem) (m n : ℕ) : adv (adv p m) n = adv p (m + n) := by
  funext i
  simp only [adv]
  congr 1
  omega

@[simp] theorem length_bytes (p : Mem) (n : ℕ) : (bytes p n).length = n := by simp [bytes]

@[simp] theorem bytes_zero (p : Mem) : bytes p 0 = [] := rfl

theorem getD_bytes (p : Mem) {n i : ℕ} (h : i < n) (b : UInt8) : (bytes p n).getD i b = p i := by
  simp [bytes, List.getD_eq_getElem?_getD, h]

/-- Bytes that agree one by one are the same. -/
theorem bytes_congr {p q : Mem} {n : ℕ} (h : ∀ i < n, p i = q i) : bytes p n = bytes q n :=
  List.map_congr_left fun i hi => h i (List.mem_range.mp hi)

/-- The bytes pointed to, cut in two. -/
theorem bytes_add (p : Mem) (m n : ℕ) : bytes p (m + n) = bytes p m ++ bytes (adv p m) n := by
  simp only [bytes, List.range_add, List.map_append, List.map_map]
  congr 1
  refine List.map_congr_left fun i _ => ?_
  simp [adv, Nat.add_comm]

theorem buffer_apply (data : List UInt8) (rest : Mem) (i : ℕ) :
    buffer data rest i = data.getD i (rest i) := by simp [buffer, memcpy]

@[simp] theorem bytes_buffer (data : List UInt8) (rest : Mem) :
    bytes (buffer data rest) data.length = data := by
  refine List.ext_getElem (by simp) fun i hi _ => ?_
  have hi' : i < data.length := by simpa using hi
  simp [bytes, buffer_apply, hi']

/-- Bytes appended to a buffer. -/
theorem bytes_memcpy {q : Mem} {b : List UInt8} (hq : bytes q b.length = b) (data : List UInt8) :
    bytes (memcpy q b.length data) (b ++ data).length = b ++ data := by
  rw [List.length_append, bytes_add]
  congr 1
  · rw [← hq, length_bytes]
    refine bytes_congr fun i hi => ?_
    rw [memcpy, if_neg (not_le.mpr hi)]
  · refine List.ext_getElem (by simp) fun i h₁ h₂ => ?_
    simp [bytes, adv, memcpy, h₂]

/-- What the bytes pointed to start with. -/
theorem bytes_of_prefix {p : Mem} {n : ℕ} {data : List UInt8} (h : data <+: bytes p n) :
    bytes p data.length = data := by
  have hle := h.length_le
  rw [length_bytes] at hle
  obtain ⟨m, rfl⟩ := Nat.exists_eq_add_of_le hle
  rw [bytes_add] at h
  obtain ⟨rest, hrest⟩ := h
  exact (List.append_inj hrest (length_bytes p _).symm).1.symm

/-- Two copies, one after the other. -/
theorem memcpy_append (p : Mem) (pos : ℕ) (a b : List UInt8) :
    memcpy (memcpy p pos a) (pos + a.length) b = memcpy p pos (a ++ b) := by
  funext i
  simp only [memcpy]
  by_cases hpos : pos ≤ i
  · rw [if_pos hpos, if_pos hpos]
    by_cases ha : pos + a.length ≤ i
    · rw [if_pos ha, List.getD_append_right _ _ _ _ (by omega), List.getD_eq_default a _ (by omega),
        Nat.sub_sub]
    · rw [if_neg ha, List.getD_append _ _ _ _ (by omega)]
  · rw [if_neg hpos, if_neg hpos, if_neg (by omega)]

/-- What is not copied to stays. -/
theorem memcpy_of_outside (p : Mem) {pos i : ℕ} {data : List UInt8}
    (h : i < pos ∨ pos + data.length ≤ i) :
    memcpy p pos data i = p i := by
  unfold memcpy
  split_ifs with hpos
  · exact List.getD_eq_default _ _ (by omega)
  · rfl

/-- Nothing is copied. -/
@[simp] theorem memcpy_nil (p : Mem) (pos : ℕ) : memcpy p pos [] = p := by
  funext i
  exact memcpy_of_outside p (Nat.lt_or_ge i pos)

/-- The bytes at a pointer, copied. -/
theorem memcpy_bytes_apply (p data : Mem) (pos n a : ℕ) :
    memcpy p pos (bytes data n) a = if pos ≤ a ∧ a < pos + n then data (a - pos) else p a := by
  split_ifs with h
  · rw [memcpy, if_pos h.1, getD_bytes data (by omega)]
  · exact memcpy_of_outside p (by rw [length_bytes]; omega)

/-- A copy seen from a pointer before it. -/
theorem adv_memcpy (p : Mem) (m pos : ℕ) (data : List UInt8) :
    adv (memcpy p (m + pos) data) m = memcpy (adv p m) pos data := by
  funext i
  simp only [adv, memcpy]
  by_cases hpos : pos ≤ i
  · rw [if_pos hpos, if_pos (by omega)]
    congr 1
    omega
  · rw [if_neg hpos, if_neg (by omega)]

/-! ### Slots -/

/-- Slot `i` of the memory at `p`, of `size` bytes. -/
def slot (p : Mem) (size i : ℕ) : List UInt8 := bytes (adv p (i * size)) size

@[simp] theorem length_slot (p : Mem) (size i : ℕ) : (slot p size i).length = size :=
    length_bytes _ _

/-- What fits a slot is written to its start. -/
theorem slot_memcpy_self (p : Mem) {size : ℕ} (w : ℕ) {data : List UInt8} (h : data.length ≤ size) :
    slot (memcpy p (w * size) data) size w = data ++ (slot p size w).drop data.length := by
  refine List.ext_getElem (by simp; omega) fun i hi _ => ?_
  have hi' : i < size := by simpa using hi
  rw [List.getElem_append]
  by_cases hdata : i < data.length
  · rw [dif_pos hdata]
    simp [slot, bytes, adv, memcpy, hdata]
  · rw [dif_neg hdata]
    simp only [slot, bytes, adv, memcpy, List.getElem_map, List.getElem_range, List.getElem_drop]
    rw [if_pos (Nat.le_add_left _ _), List.getD_eq_default _ _ (by omega)]
    congr 1
    omega

/-- The other slots stay as they are. -/
theorem slot_memcpy_of_ne (p : Mem) {size i w : ℕ} {data : List UInt8} (h : data.length ≤ size)
    (hne : i ≠ w) :
    slot (memcpy p (w * size) data) size i = slot p size i := by
  refine bytes_congr fun j hj => ?_
  simp only [adv, memcpy]
  split_ifs with hle
  · refine List.getD_eq_default _ _ ?_
    have hlt : w < i := by
      by_contra hge
      have : (i + 1) * size ≤ w * size := Nat.mul_le_mul_right size (by omega)
      rw [Nat.add_mul] at this
      omega
    have : (w + 1) * size ≤ i * size := Nat.mul_le_mul_right size (by omega)
    rw [Nat.add_mul] at this
    omega
  · rfl

/-! ### The system timer -/

/-- `sys_tick_per_us`. -/
def sysTickPerUs : ℕ := 16

/-- `clock_time_exceed(ref, us)` when the system tick is `now`. -/
def clockTimeExceed (now ref : UInt32) (us : ℕ) : Bool :=
  decide (UInt32.ofNat (us * sysTickPerUs) < now - ref)

/-! ### HCI packet types -/

/-- `HCI_TR_TYPE_CMD`. -/
def hciTrTypeCmd : UInt8 := 0x01
/-- `HCI_TR_TYPE_ACL`. -/
def hciTrTypeAcl : UInt8 := 0x02
/-- `HCI_TR_TYPE_SCO`. -/
def hciTrTypeSco : UInt8 := 0x03
/-- `HCI_TR_TYPE_EVENT`. -/
def hciTrTypeEvent : UInt8 := 0x04

/-- `HCI_CMD_HEAD_LEN`. -/
def hciCmdHeadLen : ℕ := 3
/-- `HCI_ACL_HEAD_LEN`. -/
def hciAclHeadLen : ℕ := 4
/-- `HCI_EVT_HEAD_LEN`. -/
def hciEvtHeadLen : ℕ := 2
/-- `HCI_SCO_HEAD_LEN`. -/
def hciScoHeadLen : ℕ := 3
/-- `HCI_H5_HEAD_LEN`. -/
def hciH5HeadLen : ℕ := 4
/-- `HCI_H5_CRC_LEN`. -/
def hciH5CrcLen : ℕ := 2

/-- `MEM_SIZE_ALIGN4`. -/
def memSizeAlign4 (x : ℕ) : ℕ := (x + 3) / 4 * 4

/-- `MEM_SIZE_ALIGN16`. -/
def memSizeAlign16 (x : ℕ) : ℕ := (x + 15) / 16 * 16

end TcBle.HciTransport
