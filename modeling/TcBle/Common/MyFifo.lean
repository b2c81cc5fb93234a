import TcBle.HciTransport.Common
import TcBle.Foundation.RingBuffer
import TcBle.Foundation.Run
import Mathlib.Data.List.Forall2

/-!
# The FIFO of `utility.c`

`my_fifo_t` is a ring of slots on two eight-bit counters. A slot holds the length of a message in
two bytes, and the message.

## The model

The memory is one function from addresses to bytes. A message to be pushed is what a pointer points
to and a length, an `int` that is compared with the size of a slot, and copied, as an unsigned
number. `contents` is what a reader gets that calls `my_fifo_get` and `my_fifo_pop` until nothing is
left.

## What is proved

* `fifo_iff` — along a run, each step is one of a bounded queue exactly when no message is pushed
  that is one byte shorter than a slot, or fits its slot and has more bytes than two bytes can tell.
* `contents_run` — then the contents are those of the bounded queue after the run.
-/

namespace TcBle.Common

open TcBle.HciTransport TcBle.Foundation TcBle.Foundation.Run

/-- A buffer of `num` slots. -/
structure MyFifoBuf where
  /-- The size of a slot. -/
  size : ℕ
  /-- The number of slots. -/
  num : ℕ
  /-- The address of the first slot. -/
  p : ℕ
  /-- There is room for the length. -/
  two_le_size : 2 ≤ size
  /-- A power of two up to 128. -/
  num_dvd : num ∣ 128
  /-- It is no null pointer. -/
  p_ne_zero : p ≠ 0
  /-- The buffer is in memory. -/
  inMemory : p + num * size ≤ 2 ^ 32

/-- `my_fifo_t`, and the memory. -/
structure MyFifo extends MyFifoBuf where
  /-- The write counter. -/
  wptr : ℕ
  /-- The read counter. -/
  rptr : ℕ
  /-- The memory. -/
  mem : Mem

namespace MyFifo

/-- `my_fifo_init`. -/
def myFifoInit (b : MyFifoBuf) (f : MyFifo) : MyFifo := ⟨b, 0, 0, f.mem⟩

/-- `(wptr - rptr) & 255`. -/
def count (f : MyFifo) : ℕ := (f.wptr + (2 ^ 8 - f.rptr)) % 2 ^ 8

/-- The slot that counter `r` is at. -/
def slotAt (f : MyFifo) (r : ℕ) : ℕ := f.p + (r &&& (f.num - 1)) * f.size % 2 ^ 32

/-- The length of a message, as it is compared and copied. -/
def lengthOf (n : Int32) : ℕ := n.toUInt32.toNat

/-- The first two bytes of a slot. -/
def lengthBytes (n : ℕ) : List UInt8 := [UInt8.ofNat (n &&& 0xff), UInt8.ofNat (n >>> 8 &&& 0xff)]

/-- `my_fifo_push`, with what it returns. -/
def myFifoPush (p : Mem) (n : Int32) (f : MyFifo) : MyFifo × ℤ :=
  if f.num ≤ f.count then (f, -1)
  else if f.size ≤ lengthOf n then (f, -1)
  else
    let pd := f.slotAt f.wptr
    ({ f with
        mem := memcpy (memcpy f.mem pd (lengthBytes (lengthOf n))) (pd + 2) (bytes p (lengthOf n))
        wptr := (f.wptr + 1) % 2 ^ 8 }, 0)

/-- `my_fifo_pop`. -/
def myFifoPop (f : MyFifo) : MyFifo := { f with rptr := (f.rptr + 1) % 2 ^ 8 }

/-- `my_fifo_get`. -/
def myFifoGet (f : MyFifo) : Option ℕ := if f.rptr ≠ f.wptr then some (f.slotAt f.rptr) else none

/-- The message that a reader finds in the slot at `a`. -/
def message (f : MyFifo) (a : ℕ) : List UInt8 := bytes (adv f.mem (a + 2)) (u16At (adv f.mem a))

/-- What a reader gets in `n` rounds. -/
def readOut : ℕ → MyFifo → List (List UInt8)
  | 0, _ => []
  | n + 1, f => match f.myFifoGet with
    | some a => f.message a :: readOut n f.myFifoPop
    | none => []

/-- What a reader gets until nothing is left. -/
def contents (f : MyFifo) : List (List UInt8) := readOut (2 ^ 8) f

/-- What is done with a FIFO. -/
inductive Op where
  /-- `my_fifo_init`. -/
  | init (b : MyFifoBuf)
  /-- `my_fifo_push`. -/
  | push (p : Mem) (n : Int32)
  /-- `my_fifo_pop`. -/
  | pop
  /-- `my_fifo_get`. -/
  | get

/-- A step. -/
def step (f : MyFifo) : Op → MyFifo
  | .init b => f.myFifoInit b
  | .push p n => (f.myFifoPush p n).1
  | .pop => f.myFifoPop
  | .get => f

/-- A caller pops only what it has got. -/
def Called (f : MyFifo) : Op → Prop
  | .pop => f.myFifoGet ≠ none
  | .init _ | .push _ _ | .get => True

/-! ### The bounded queue -/

/-- A message is added where there is a slot for it that it fits. -/
def queuePush (b : MyFifoBuf) (q : List (List UInt8)) (m : List UInt8) : List (List UInt8) × ℤ :=
  if q.length < b.num ∧ m.length + 2 ≤ b.size then (q ++ [m], 0) else (q, -1)

/-- A step of the queue. -/
def queueStep (s : MyFifoBuf × List (List UInt8)) : Op → MyFifoBuf × List (List UInt8)
  | .init b => (b, [])
  | .push p n => (s.1, (queuePush s.1 s.2 (bytes p (lengthOf n))).1)
  | .pop => (s.1, s.2.tail)
  | .get => s

/-- **A step is one of the queue**: the contents, and what is returned. -/
def Refines (f : MyFifo) : Op → Prop
  | .init b => (f.myFifoInit b).contents = []
  | .push p n =>
    ((f.myFifoPush p n).1.contents, (f.myFifoPush p n).2) =
      queuePush f.toMyFifoBuf f.contents (bytes p (lengthOf n)) ∧
      ((f.myFifoPush p n).2 = -1 → (f.myFifoPush p n).1 = f) ∧
      ∀ a, (a < f.slotAt f.wptr ∨ f.slotAt f.wptr + f.size ≤ a) →
        (f.myFifoPush p n).1.mem a = f.mem a
  | .pop => f.myFifoPop.contents = f.contents.tail
  | .get => f.myFifoGet.map f.message = f.contents.head?

/-- A message is not one byte shorter than its slot, and two bytes can tell its length if it
fits. -/
def Tellable (f : MyFifo) : Op → Prop
  | .push _ n => f.count < f.num → lengthOf n + 1 ≠ f.size ∧
    (lengthOf n + 2 ≤ f.size → lengthOf n < 2 ^ 16)
  | .init _ | .pop | .get => True

/-! ### Slots -/

variable {f : MyFifo} {log q : List (List UInt8)} {rel : ℕ}

/-- The FIFO as a ring of slots. -/
def ring (f : MyFifo) : RingBuffer (List UInt8) :=
    ⟨f.num, f.num_dvd, slot (adv f.mem f.p) f.size, f.wptr, f.rptr⟩

/-- The mask takes a counter modulo the number of slots. -/
theorem slotAt_eq (f : MyFifo) (r : ℕ) : f.slotAt r = f.p + r % f.num * f.size := by
  have hlt : r % f.num < f.num := Nat.mod_lt _ (Nat.pos_of_dvd_of_pos f.num_dvd (by simp))
  have hmul : (r % f.num + 1) * f.size ≤ f.num * f.size := Nat.mul_le_mul_right _ hlt
  rw [Nat.add_mul] at hmul
  have hsize := f.two_le_size
  have hmem := f.inMemory
  have hmask : r &&& (f.num - 1) = r % f.num := f.ring.and_mask r
  rw [slotAt, hmask, Nat.mod_eq_of_lt (by omega)]

/-- A slot that holds message `m`. -/
structure Stored (m s : List UInt8) : Prop where
  /-- The slot starts with its length, and it. -/
  starts : lengthBytes m.length ++ m <+: s
  /-- Two bytes can tell its length. -/
  told : m.length < 2 ^ 16

/-- **The FIFO holds the queue `q`**: `log` are the slots as they were when a message had been
pushed. -/
structure Holds (f : MyFifo) (log : List (List UInt8)) (rel : ℕ) (q : List (List UInt8)) :
    Prop where
  /-- The ring. -/
  ring : f.ring.Holds log rel
  /-- The slots that are not popped hold the queue. -/
  stored : List.Forall₂ Stored q (log.drop rel)

/-- The message of a slot, as a reader finds it. -/
theorem message_of_stored {i : ℕ} {m : List UInt8} (h : Stored m (slot (adv f.mem f.p) f.size i)) :
    f.message (f.p + i * f.size) = m := by
  have hbytes := bytes_of_prefix h.starts
  rw [adv_adv, List.length_append, bytes_add] at hbytes
  obtain ⟨hlength, hm⟩ := List.append_inj hbytes (length_bytes _ _)
  rw [adv_adv] at hm
  have hu16 : u16At (adv f.mem (f.p + i * f.size)) = m.length := by
    have htold := h.told
    have h0 : adv f.mem (f.p + i * f.size) 0 = UInt8.ofNat (m.length &&& 0xff) :=
      (List.cons.inj hlength).1
    have h1 : adv f.mem (f.p + i * f.size) 1 = UInt8.ofNat (m.length >>> 8 &&& 0xff) :=
      (List.cons.inj (List.cons.inj hlength).2).1
    have hmask : ∀ n : ℕ, n &&& 0xff = n % 2 ^ 8 := fun n => Nat.and_two_pow_sub_one_eq_mod n 8
    rw [u16At, h0, h1, hmask, hmask, Nat.shiftRight_eq_div_pow, UInt8.toNat_ofNat',
      UInt8.toNat_ofNat']
    omega
  rw [message, hu16]
  exact hm

/-- A push that writes. -/
theorem push_eq {p : Mem} {n : Int32} (hroom : f.count < f.num) (hfits : lengthOf n < f.size) :
    f.myFifoPush p n =
      ({ f with
          mem := memcpy f.mem (f.slotAt f.wptr) (lengthBytes (lengthOf n) ++ bytes p (lengthOf n))
          wptr := (f.wptr + 1) % 2 ^ 8 }, 0) := by
  rw [myFifoPush, if_neg (Nat.not_le.mpr hroom), if_neg (Nat.not_le.mpr hfits)]
  simp only
  rw [← memcpy_append]
  rfl

/-- The counters of the ring are those of the FIFO. -/
theorem Holds.count (h : f.Holds log rel q) : f.count = q.length := by
  have hcount : f.count = log.length - rel := h.ring.count
  rw [hcount, h.stored.length_eq, List.length_drop]

theorem Holds.push (h : f.Holds log rel q) {p : Mem} {n : Int32} (hroom : f.count < f.num)
    (hfits : lengthOf n + 2 ≤ f.size) (htold : lengthOf n < 2 ^ 16) :
    ∃ log, (f.myFifoPush p n).1.Holds log rel (q ++ [bytes p (lengthOf n)]) := by
  set data := lengthBytes (lengthOf n) ++ bytes p (lengthOf n) with hdata
  have hlen : data.length ≤ f.size := by
    rw [hdata, List.length_append, length_bytes]
    exact (Nat.add_comm 2 (lengthOf n)).trans_le hfits
  rw [push_eq hroom (by omega), ← hdata]
  set written :=
    data ++ (slot (adv f.mem f.p) f.size (f.wptr % f.num)).drop data.length with hwritten
  have hslots : slot (adv (memcpy f.mem (f.slotAt f.wptr) data) f.p) f.size =
      Function.update (slot (adv f.mem f.p) f.size) (f.wptr % f.num) written := by
    rw [slotAt_eq, adv_memcpy]
    funext i
    by_cases hi : i = f.wptr % f.num
    · rw [hi, Function.update_self]
      exact slot_memcpy_self _ _ hlen
    · rw [Function.update_of_ne hi]
      exact slot_memcpy_of_ne _ hlen hi
  refine ⟨log ++ [written], ?_, ?_⟩
  · rw [MyFifo.ring]
    simp only [hslots]
    exact h.ring.push hroom written
  · rw [List.drop_append_of_le_length h.ring.released]
    refine List.rel_append h.stored (.cons ⟨?_, ?_⟩ .nil)
    · rw [length_bytes, ← hdata]
      exact List.prefix_append _ _
    · rwa [length_bytes]

/-- The counters are equal exactly when the queue is empty. -/
theorem Holds.get_eq_none_iff (h : f.Holds log rel q) : f.myFifoGet = none ↔ q = [] := by
  have hempty : f.wptr = f.rptr ↔ rel = log.length := h.ring.empty_iff
  have hlen := h.stored.length_eq
  have hrel := h.ring.released
  rw [List.length_drop] at hlen
  rw [myFifoGet, ← List.length_eq_zero_iff, hlen]
  by_cases hptr : f.wptr = f.rptr
  · rw [if_neg (not_not.mpr hptr.symm)]
    exact iff_of_true rfl (by rw [hempty.mp hptr, Nat.sub_self])
  · rw [if_pos (Ne.symm hptr)]
    refine iff_of_false nofun fun hzero => hptr (hempty.mpr ?_)
    omega

/-- **A get and a pop**: the first message, and the rest. -/
theorem Holds.read (h : f.Holds log rel q) (hne : f.myFifoGet ≠ none) :
    ∃ m rest, q = m :: rest ∧ f.myFifoGet.map f.message = some m ∧
      f.myFifoPop.Holds log (rel + 1) rest := by
  have hptr : f.rptr ≠ f.wptr := fun heq => hne (if_neg (not_not.mpr heq))
  obtain ⟨hlt, hget, hrelease⟩ := h.ring.read hptr.symm
  have hstored := h.stored
  rw [List.drop_eq_getElem_cons hlt] at hstored
  cases hstored with
  | @cons m _ rest _ hm hrest =>
    refine ⟨m, rest, rfl, ?_, hrelease, hrest⟩
    rw [myFifoGet, if_pos hptr, Option.map_some, slotAt_eq]
    congr 1
    refine message_of_stored ?_
    have hslot : slot (adv f.mem f.p) f.size (f.rptr % f.num) = log[rel] := hget
    rw [hslot]
    exact hm

theorem Holds.readOut (h : f.Holds log rel q) (n : ℕ) : MyFifo.readOut n f = q.take n := by
  induction n generalizing f rel q with
  | zero => exact (List.take_zero (l := q)).symm
  | succ n ih =>
    rw [MyFifo.readOut]
    by_cases hne : f.myFifoGet = none
    · rw [hne, h.get_eq_none_iff.mp hne]
      exact (List.take_nil).symm
    · obtain ⟨m, rest, rfl, hget, hpop⟩ := h.read hne
      obtain ⟨a, ha, hm⟩ := Option.map_eq_some_iff.mp hget
      rw [ha]
      simp only
      rw [hm, ih hpop, List.take_succ_cons]

/-- **The contents are the queue.** -/
theorem Holds.contents (h : f.Holds log rel q) : f.contents = q := by
  have hroom := h.ring.room
  have hnum := f.ring.num_le
  have hlen := h.stored.length_eq
  rw [List.length_drop] at hlen
  rw [MyFifo.contents, h.readOut, List.take_of_length_le]
  omega

/-- No message is longer than two bytes can tell. -/
theorem length_lt_of_mem_readOut {m : List UInt8} (n : ℕ) (f : MyFifo) (hm : m ∈ readOut n f) :
    m.length < 2 ^ 16 := by
  induction n generalizing f with
  | zero => exact absurd hm nofun
  | succ n ih =>
    rw [readOut] at hm
    cases hget : f.myFifoGet with
    | none =>
      rw [hget] at hm
      exact absurd hm nofun
    | some a =>
      rw [hget] at hm
      simp only [List.mem_cons] at hm
      rcases hm with rfl | hm
      · rw [message, length_bytes, u16At]
        have h0 := (adv f.mem a 0).toNat_lt
        have h1 := (adv f.mem a 1).toNat_lt
        omega
      · exact ih _ hm

/-! ### Steps -/

/-- The FIFO holds some queue. -/
def Ok (f : MyFifo) : Prop := ∃ log rel q, f.Holds log rel q

theorem holds_init (b : MyFifoBuf) (f : MyFifo) : (f.myFifoInit b).Holds [] 0 [] :=
  ⟨(f.myFifoInit b).ring.holds_reset, .nil⟩

/-- A push that is turned away, in the queue as in the FIFO. -/
theorem Holds.refines_refused (h : f.Holds log rel q) {p : Mem} {n : Int32}
    (hpush : f.myFifoPush p n = (f, -1))
    (hrefused : ¬(f.count < f.num ∧ lengthOf n + 2 ≤ f.size)) : f.Refines (.push p n) := by
  rw [h.count] at hrefused
  refine ⟨?_, fun _ => by rw [hpush], fun _ _ => by rw [hpush]⟩
  rw [hpush, queuePush, h.contents, length_bytes, if_neg hrefused]

/-- A push that is taken. -/
theorem Holds.refines_taken (h : f.Holds log rel q) {p : Mem} {n : Int32} (hroom : f.count < f.num)
    (hfits : lengthOf n + 2 ≤ f.size) : f.Refines (.push p n) ↔ lengthOf n < 2 ^ 16 := by
  have hqueue : queuePush f.toMyFifoBuf f.contents (bytes p (lengthOf n)) =
    (q ++ [bytes p (lengthOf n)], 0) := by
    rw [queuePush, h.contents, length_bytes, if_pos ⟨h.count ▸ hroom, hfits⟩]
  have hret : (f.myFifoPush p n).2 = 0 := by rw [push_eq hroom (by omega)]
  constructor
  · rintro ⟨hcontents, -, -⟩
    rw [hqueue] at hcontents
    have hmem : bytes p (lengthOf n) ∈ (f.myFifoPush p n).1.contents := by
      rw [show (f.myFifoPush p n).1.contents = q ++
        [bytes p (lengthOf n)] from congrArg Prod.fst hcontents]
      exact List.mem_append_right _ (List.mem_singleton_self _)
    have hlt := length_lt_of_mem_readOut _ _ hmem
    rwa [length_bytes] at hlt
  · intro htold
    obtain ⟨log', hpush⟩ := h.push (p := p) hroom hfits htold
    refine ⟨by rw [hqueue, hpush.contents, hret], fun hrefused => ?_, fun a ha => ?_⟩
    · rw [hret] at hrefused
      exact absurd hrefused (by simp)
    · rw [push_eq hroom (by omega)]
      refine memcpy_of_outside _ ?_
      rw [List.length_append, length_bytes]
      have hlength : (lengthBytes (lengthOf n)).length = 2 := rfl
      omega

/-- A push of a message that is one byte shorter than its slot is taken. -/
theorem not_refines_of_overlong {p : Mem} {n : Int32} (hroom : f.count < f.num)
    (hlong : lengthOf n + 1 = f.size) :
    ¬f.Refines (.push p n) := by
  rintro ⟨hcontents, -, -⟩
  rw [push_eq hroom (by omega), queuePush, length_bytes, if_neg (by omega)] at hcontents
  exact absurd (Prod.ext_iff.mp hcontents).2 (by simp)

/-- **A step is one of the queue** exactly when what it pushes, if anything, is tellable. -/
theorem Holds.step_iff (h : f.Holds log rel q) {op : Op} (hcalled : f.Called op) :
    f.Refines op ↔ f.Tellable op := by
  cases op with
  | init b => exact iff_of_true (holds_init b f).contents trivial
  | pop =>
    obtain ⟨m, rest, hq, -, hpop⟩ := h.read hcalled
    refine iff_of_true ?_ trivial
    rw [Refines, hpop.contents, h.contents, hq, List.tail_cons]
  | get =>
    refine iff_of_true ?_ trivial
    rw [Refines, h.contents]
    by_cases hne : f.myFifoGet = none
    · rw [hne, h.get_eq_none_iff.mp hne]
      rfl
    · obtain ⟨m, rest, hq, hget, -⟩ := h.read hne
      rw [hget, hq, List.head?_cons]
  | push p n =>
    rw [Tellable]
    by_cases hroom : f.count < f.num
    · rw [forall_prop_of_true hroom]
      rcases Nat.lt_trichotomy (lengthOf n + 1) f.size with hlt | heq | hgt
      · rw [h.refines_taken hroom hlt, and_iff_right hlt.ne,
          forall_prop_of_true (show lengthOf n + 2 ≤ f.size from hlt)]
      · exact iff_of_false (not_refines_of_overlong hroom heq) fun htell => htell.1 heq
      · have hpush : f.myFifoPush p n = (f, -1) := by
          rw [myFifoPush, if_neg (Nat.not_le.mpr hroom), if_pos (by omega)]
        refine iff_of_true (h.refines_refused hpush (by omega)) ⟨hgt.ne', by omega⟩
    · have hpush : f.myFifoPush p n = (f, -1) := if_pos (Nat.not_lt.mp hroom)
      exact iff_of_true (h.refines_refused hpush fun hboth => hroom hboth.1) fun hlt =>
        absurd hlt hroom

/-- The step lemma. -/
theorem Holds.next (h : f.Holds log rel q) {op : Op} (hcalled : f.Called op)
    (htell : f.Tellable op) : (f.step op).Ok := by
  cases op with
  | init b => exact ⟨_, _, _, holds_init b f⟩
  | pop =>
    obtain ⟨m, rest, -, -, hpop⟩ := h.read hcalled
    exact ⟨_, _, _, hpop⟩
  | get => exact ⟨_, _, _, h⟩
  | push p n =>
    by_cases htaken : f.count < f.num ∧ lengthOf n + 2 ≤ f.size
    · obtain ⟨hlong, htold⟩ := htell htaken.1
      obtain ⟨log', hpush⟩ := h.push (p := p) htaken.1 htaken.2 (htold htaken.2)
      exact ⟨_, _, _, hpush⟩
    · have hrefused : f.num ≤ f.count ∨ f.size ≤ lengthOf n := by
        by_contra hnone
        rw [not_or, Nat.not_le, Nat.not_le] at hnone
        obtain ⟨hlong, -⟩ := htell hnone.1
        exact htaken ⟨hnone.1, by omega⟩
      rw [step, myFifoPush]
      split_ifs with hfull hbig
      · exact ⟨_, _, _, h⟩
      · exact ⟨_, _, _, h⟩
      · exact absurd hrefused (by omega)

/-! ### Runs -/

/-- The contents after a run whose steps are those of the queue. -/
theorem contents_run (f : MyFifo) (run : List Op) (h : Along step Refines f run) :
    ((run.foldl step f).toMyFifoBuf, (run.foldl step f).contents) =
      run.foldl queueStep (f.toMyFifoBuf, f.contents) := by
  induction run generalizing f with
  | nil => rfl
  | cons op run ih =>
    obtain ⟨hop, hrun⟩ := h
    rw [List.foldl_cons, List.foldl_cons, ih _ hrun]
    congr 1
    cases op with
    | init b => exact Prod.ext rfl hop
    | push p n =>
      refine Prod.ext ?_ (congrArg Prod.fst hop.1)
      simp only [step, myFifoPush]
      split_ifs <;> rfl
    | pop => exact Prod.ext rfl hop
    | get => rfl

/-- **The FIFO is a bounded queue** throughout a run exactly when no step of it pushes, while there
is a free slot, a message that is one byte shorter than a slot, or that fits a slot and has 2^16
bytes or more. -/
theorem fifo_iff (b : MyFifoBuf) (f : MyFifo) (run : List Op)
    (hcalled : Along step Called (f.myFifoInit b) run) :
    Along step Refines (f.myFifoInit b) run ↔ Along step Tellable (f.myFifoInit b) run := by
  have hinit : Ok (f.myFifoInit b) := ⟨_, _, _, holds_init b f⟩
  refine Along.congr (fun f op (h : Ok f) hop => ?_)
    (fun f op (h : Ok f) hop htell => ?_) hinit hcalled
  · obtain ⟨log, rel, q, hholds⟩ := h
    exact hholds.step_iff hop
  · obtain ⟨log, rel, q, hholds⟩ := h
    exact hholds.next hop htell

/-- Two slots of four bytes. -/
def twoSlots : MyFifoBuf where
  size := 4
  num := 2
  p := 0x1000
  two_le_size := by decide
  num_dvd := by decide
  p_ne_zero := by decide
  inMemory := by decide

/-- A message of two bytes, which is got and popped. -/
theorem twoBytes_refine :
    Along step Refines (myFifoInit twoSlots ⟨twoSlots, 0, 0, fun _ => 0⟩)
    [.push (fun _ => 7) 2, .get, .pop] :=
  (fifo_iff twoSlots ⟨twoSlots, 0, 0, fun _ => 0⟩ [.push (fun _ => 7) 2, .get, .pop]
    ⟨trivial, trivial, show MyFifo.myFifoGet _ ≠ none by decide, trivial⟩).mpr
    ⟨fun _ => ⟨by decide, fun _ => by decide⟩, trivial, trivial, trivial⟩

/-- **A message of three bytes** is pushed into a slot of four. -/
theorem threeBytes_pushed :
    ¬Along step Refines (myFifoInit twoSlots ⟨twoSlots, 0, 0, fun _ => 0⟩)
    [.push (fun _ => 7) 3] := by
  rintro ⟨⟨hcontents, -, -⟩, -⟩
  exact absurd (congrArg Prod.snd hcontents) (by decide)

end MyFifo

end TcBle.Common
