import Mathlib.Algebra.Ring.Nat
import Mathlib.Data.List.Basic
import Mathlib.Data.List.GetD
import Mathlib.Order.Nat
import Mathlib.Tactic.Common

/-!
# NOR flash

A flash memory whose bytes are all ones when erased and whose writes can only clear
bits: a write stores the bitwise and of what is there and what is written. The
operations a program performs are kept as a list, oldest first, so that a power cut
is a prefix of the list: `replay` gives the memory after it.

## What is proved

* `program_append` — writing a string of bytes is writing its pieces in order, however
  it is cut.
* `program_get` and `program_other` — what a write leaves, inside and outside of its
  range; `readBack_iff` and `replay_readBack_iff` — the bytes are read back as written exactly
  when the memory can take them.
* `replay_append` — a prefix of a run of operations is a memory the run goes through.
-/

namespace TcBle.Foundation

/-- The memory: a byte for each address. -/
abbrev Flash := ℕ → UInt8

/-- An operation on the memory. -/
inductive FlashOp where
  /-- Write `data` from address `addr` on. -/
  | write (addr : ℕ) (data : List UInt8)
  /-- Erase the `len` bytes from address `addr` on. -/
  | erase (addr len : ℕ)
  deriving DecidableEq

namespace Flash

/-- Write `data` from `addr` on: a byte keeps the bits that both have. -/
def program (f : Flash) (addr : ℕ) (data : List UInt8) : Flash := fun a =>
  if addr ≤ a then f a &&& data.getD (a - addr) 0xff else f a

/-- Erase `len` bytes from `addr` on. -/
def erase (f : Flash) (addr len : ℕ) : Flash := fun a =>
  if addr ≤ a ∧ a < addr + len then 0xff else f a

/-- The `n` bytes from `addr` on. -/
def read (f : Flash) (addr n : ℕ) : List UInt8 := (List.range n).map fun i => f (addr + i)

/-- The `n` bytes from `addr` on are erased. -/
def Erased (f : Flash) (addr n : ℕ) : Prop := ∀ i < n, f (addr + i) = 0xff

instance (f : Flash) (addr n : ℕ) : Decidable (Erased f addr n) :=
  inferInstanceAs (Decidable (∀ i < n, f (addr + i) = 0xff))

/-- The memory can take `data` at `addr`: every one bit of `data` is still a one. -/
def Takes (f : Flash) (addr : ℕ) (data : List UInt8) : Prop :=
  ∀ i < data.length, f (addr + i) &&& data.getD i 0xff = data.getD i 0xff

instance (f : Flash) (addr : ℕ) (data : List UInt8) : Decidable (Takes f addr data) :=
  inferInstanceAs (Decidable (∀ i < data.length, _))

theorem and_ff (b : UInt8) : b &&& 0xff = b := UInt8.and_neg_one

theorem ff_and (b : UInt8) : 0xff &&& b = b := UInt8.neg_one_and

/-! ### Writing -/

/-- Writing nothing changes nothing. -/
@[simp] theorem program_nil (f : Flash) (addr : ℕ) : f.program addr [] = f := by
  funext a
  simp only [program, List.getD_nil]
  split
  · exact and_ff _
  · rfl

/-- What a write leaves in its range. -/
theorem program_get (f : Flash) {addr i : ℕ} {data : List UInt8} :
    f.program addr data (addr + i) = f (addr + i) &&& data.getD i 0xff := by
  simp [program]

/-- A write leaves the bytes outside of its range alone. -/
theorem program_other (f : Flash) {addr a : ℕ} {data : List UInt8}
    (h : a < addr ∨ addr + data.length ≤ a) : f.program addr data a = f a := by
  unfold program
  split
  · rw [List.getD_eq_default _ _ (by omega), and_ff]
  · rfl

/-- Writing the byte `b` at one address. -/
theorem program_singleton (f : Flash) (addr : ℕ) (b : UInt8) :
    f.program addr [b] addr = f addr &&& b := by simp [program]

/-- A string of bytes is written as its pieces, in order. -/
theorem program_append (f : Flash) (addr : ℕ) (d₁ d₂ : List UInt8) :
    f.program addr (d₁ ++ d₂) = (f.program addr d₁).program (addr + d₁.length) d₂ := by
  funext a
  unfold program
  by_cases h₁ : addr ≤ a
  · by_cases h₂ : addr + d₁.length ≤ a
    · rw [if_pos h₁, if_pos h₂, if_pos h₁, List.getD_append_right _ _ _ _ (by omega),
        List.getD_eq_default d₁ _ (by omega), and_ff, Nat.sub_sub]
    · rw [if_pos h₁, if_neg h₂, if_pos h₁, List.getD_append _ _ _ _ (by omega)]
  · rw [if_neg h₁, if_neg (by omega), if_neg h₁]

/-- A byte that ends as `0xff` was `0xff` and got nothing else written. -/
theorem program_eq_ff {f : Flash} {addr a : ℕ} {data : List UInt8} :
    f.program addr data a = 0xff ↔
      f a = 0xff ∧ (addr ≤ a → data.getD (a - addr) 0xff = 0xff) := by
  unfold program
  split
  · rename_i h
    simp only [h, true_implies]
    exact UInt8.and_eq_neg_one_iff
  · rename_i h
    simp [h]

/-- What a write leaves at an address depends on what is there. -/
theorem program_congr {f g : Flash} {a : ℕ} (h : g a = f a) (addr : ℕ) (data : List UInt8) :
    g.program addr data a = f.program addr data a := by
  unfold program
  rw [h]

/-! ### Reading -/

@[simp] theorem length_read (f : Flash) (addr n : ℕ) : (f.read addr n).length = n := by simp [read]

theorem getD_read (f : Flash) {addr n i : ℕ} (h : i < n) (b : UInt8) :
    (f.read addr n).getD i b = f (addr + i) := by
  simp [read, List.getD_eq_getElem?_getD, h]

theorem read_append (f : Flash) (addr m n : ℕ) :
    f.read addr (m + n) = f.read addr m ++ f.read (addr + m) n := by
  simp [read, List.range_add, Nat.add_assoc]

theorem read_succ (f : Flash) (addr n : ℕ) :
    f.read addr (n + 1) = f addr :: f.read (addr + 1) n := by
  rw [Nat.add_comm n 1]
  exact read_append f addr 1 n

/-- The bytes read are `data` when they are one by one. -/
theorem read_eq_iff {f : Flash} {addr : ℕ} {data : List UInt8} :
    f.read addr data.length = data ↔ ∀ i < data.length, f (addr + i) = data.getD i 0xff := by
  constructor
  · intro h i hi
    rw [← getD_read f hi 0xff, h]
  · intro h
    refine List.ext_getElem (by simp) fun i hi _ => ?_
    have hi' : i < data.length := by simpa using hi
    have := h i hi'
    rw [List.getD_eq_getElem _ _ hi'] at this
    simpa [read] using this

/-- Data are read back as written exactly when the memory can take them. -/
theorem readBack_iff {f : Flash} {addr : ℕ} {data : List UInt8} :
    (f.program addr data).read addr data.length = data ↔ Takes f addr data := by
  rw [read_eq_iff]
  refine forall_congr' fun i => forall_congr' fun _ => ?_
  rw [program_get]

/-- Bytes that are the same are read the same. -/
theorem read_congr {f g : Flash} {addr n : ℕ} (h : ∀ i < n, g (addr + i) = f (addr + i)) :
    g.read addr n = f.read addr n := List.map_congr_left fun i hi => h i (List.mem_range.mp hi)

theorem takes_congr {f g : Flash} {addr : ℕ} {data : List UInt8}
    (h : ∀ i < data.length, g (addr + i) = f (addr + i)) :
    Takes g addr data ↔ Takes f addr data := by
  refine forall_congr' fun i => forall_congr' fun hi => ?_
  rw [h i hi]

/-! ### Erasing -/

theorem erase_get (f : Flash) {addr len a : ℕ} (h₁ : addr ≤ a) (h₂ : a < addr + len) :
    f.erase addr len a = 0xff := if_pos ⟨h₁, h₂⟩

theorem erase_other (f : Flash) {addr len a : ℕ} (h : a < addr ∨ addr + len ≤ a) :
    f.erase addr len a = f a := if_neg (by omega)

theorem erase_congr {f g : Flash} {a : ℕ} (h : g a = f a) (addr len : ℕ) :
    g.erase addr len a = f.erase addr len a := by
  unfold erase
  rw [h]

end Flash

/-! ### Runs of operations -/

namespace FlashOp

/-- What an operation does. -/
def apply (f : Flash) : FlashOp → Flash
  | .write addr data => f.program addr data
  | .erase addr len => f.erase addr len

/-- An operation touches only the addresses from `lo` to below `hi`. -/
def Within (lo hi : ℕ) : FlashOp → Prop
  | .write addr data => lo ≤ addr ∧ addr + data.length ≤ hi
  | .erase addr len => lo ≤ addr ∧ addr + len ≤ hi

/-- An operation leaves the addresses from `lo` to below `hi` alone. -/
def Leaves (lo hi : ℕ) : FlashOp → Prop
  | .write addr data => addr + data.length ≤ lo ∨ hi ≤ addr
  | .erase addr len => addr + len ≤ lo ∨ hi ≤ addr

theorem leaves_write {lo hi addr : ℕ} {data : List UInt8} :
    (FlashOp.write addr data).Leaves lo hi ↔ addr + data.length ≤ lo ∨ hi ≤ addr := Iff.rfl

theorem Leaves.apply {f : Flash} {lo hi a : ℕ} {op : FlashOp} (h : op.Leaves lo hi) (hlo : lo ≤ a)
    (hhi : a < hi) :
    op.apply f a = f a := by
  cases op with
  | write addr data =>
    refine f.program_other ?_
    unfold Leaves at h
    omega
  | erase addr len =>
    refine f.erase_other ?_
    unfold Leaves at h
    omega

theorem Within.mono {lo lo' hi hi' : ℕ} {op : FlashOp} (h : op.Within lo' hi') (hlo : lo ≤ lo')
    (hhi : hi' ≤ hi) : op.Within lo hi := by
  cases op <;> exact ⟨hlo.trans h.1, h.2.trans hhi⟩

/-- It leaves the bytes outside of them alone. -/
theorem Within.apply_other {f : Flash} {lo hi a : ℕ} {op : FlashOp} (h : op.Within lo hi)
    (ha : a < lo ∨ hi ≤ a) : op.apply f a = f a := by
  cases op with
  | write addr data =>
    obtain ⟨h₁, h₂⟩ := h
    exact f.program_other (by omega)
  | erase addr len =>
    obtain ⟨h₁, h₂⟩ := h
    exact f.erase_other (by omega)

end FlashOp

namespace Flash

/-- The memory after a run of operations, the oldest first. -/
def replay (f : Flash) (ops : List FlashOp) : Flash := ops.foldl FlashOp.apply f

@[simp] theorem replay_nil (f : Flash) : f.replay [] = f := rfl

@[simp] theorem replay_cons (f : Flash) (op : FlashOp) (ops : List FlashOp) :
    f.replay (op :: ops) = (op.apply f).replay ops := rfl

theorem replay_append (f : Flash) (ops₁ ops₂ : List FlashOp) :
    f.replay (ops₁ ++ ops₂) = (f.replay ops₁).replay ops₂ := List.foldl_append

/-- What a run leaves at an address depends on what is there. -/
theorem replay_congr {f g : Flash} {a : ℕ} (h : g a = f a) (ops : List FlashOp) :
    g.replay ops a = f.replay ops a := by
  induction ops generalizing f g with
  | nil => exact h
  | cons op ops ih =>
    refine ih ?_
    cases op with
    | write addr data => exact program_congr h addr data
    | erase addr len => exact erase_congr h addr len

/-- What holds at first and is kept by every operation of the run holds at every
prefix of it, wherever the power is cut. -/
theorem replay_prefix_of_step {P : Flash → Prop} {ops : List FlashOp} {f : Flash} (h₀ : P f)
    (hstep : ∀ op ∈ ops, ∀ g, P g → P (op.apply g)) {pre : List FlashOp} (hp : pre <+: ops) :
    P (f.replay pre) := by
  induction pre generalizing f ops with
  | nil => exact h₀
  | cons op pre ih =>
    obtain ⟨t, rfl⟩ := hp
    refine ih (hstep op (by simp) f h₀) (fun op' h => hstep op' ?_) (List.prefix_append pre t)
    simp only [List.cons_append, List.mem_cons]
    exact Or.inr h

/-- A run within a range leaves the bytes outside of it alone, wherever the power is cut. -/
theorem replay_other {ops : List FlashOp} {f : Flash} {lo hi : ℕ} (h : ∀ op ∈ ops, op.Within lo hi)
    {pre : List FlashOp} (hp : pre <+: ops) {a : ℕ} (ha : a < lo ∨ hi ≤ a) : f.replay pre a = f a :=
  replay_prefix_of_step (P := fun g => g a = f a) rfl
    (fun op hop _ hg => ((h op hop).apply_other ha).trans hg) hp

theorem replay_leaves {ops : List FlashOp} {f : Flash} {lo hi a : ℕ}
    (h : ∀ op ∈ ops, op.Leaves lo hi) (hlo : lo ≤ a)
    (hhi : a < hi) : f.replay ops a = f a :=
  replay_prefix_of_step (P := fun g => g a = f a) rfl
    (fun op hop _ hg => ((h op hop).apply hlo hhi).trans hg)
    (List.prefix_refl ops)

/-- **What is read back** after a run in which one operation writes a range and the others leave it
alone. -/
theorem replay_readBack_iff {pre post : List FlashOp} {f : Flash} {addr : ℕ} {data : List UInt8}
    (hpre : ∀ op ∈ pre, op.Leaves addr (addr + data.length))
    (hpost : ∀ op ∈ post, op.Leaves addr (addr + data.length)) :
    (f.replay (pre ++ .write addr data :: post)).read addr data.length = data ↔
      Takes f addr data := by
  rw [replay_append, replay_cons, read_congr fun i hi => replay_leaves hpost (Nat.le_add_right _ _)
    (Nat.add_lt_add_left hi addr)]
  refine readBack_iff.trans (takes_congr fun i hi => ?_)
  exact replay_leaves hpre (Nat.le_add_right _ _) (Nat.add_lt_add_left hi addr)

end Flash

end TcBle.Foundation
