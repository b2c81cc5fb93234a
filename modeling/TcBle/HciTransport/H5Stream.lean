import TcBle.HciTransport.H5Reassembly
import TcBle.HciTransport.UartRx

/-!
# A stream of SLIP packets

Two endpoints give SLIP packets to their UARTs one after the other, and the receiver of the
transport sees a stream of bytes, cut into chunks anywhere. When the flush timer ends it forgets the
frame that it holds.

## What is proved

* `Pending.read` — a chunk of the stream closes the frames of the oldest packets, each whole.
* `Pending.flush` — a flush loses at most one packet: the two delimiters between two packets put the
  receiver back in step.
* `Pending.short` — while no packet has more than 255 bytes, the eight-bit counters of the backup
  buffer are long enough, wherever the stream is cut.
-/

namespace TcBle.HciTransport

open TcBle.Foundation TcBle.Foundation.Transducer

/-! ### The packets -/

/-- What is between the delimiters of a packet: at least the header, and no delimiter. -/
structure IsBody (x : List UInt8) : Prop where
  /-- The header. -/
  four_le : 4 ≤ x.length
  /-- Every delimiter is escaped. -/
  notMem : slipDelimiter ∉ x

/-- A SLIP packet. -/
def packet (x : List UInt8) : List UInt8 := slipDelimiter :: (x ++ [slipDelimiter])

theorem length_packet (x : List UInt8) : (packet x).length = x.length + 2 := by
  rw [packet, List.length_cons, List.length_append]
  rfl

/-- No byte is encoded with a delimiter. -/
theorem notMem_encodeByte (oofEnable : Bool) (b : UInt8) :
    slipDelimiter ∉ slipEncodeByte oofEnable b := by
  unfold slipEncodeByte
  split_ifs with hspecial hoof
  · rcases hoof.2 with rfl | rfl <;> decide
  · rcases hspecial with rfl | rfl | rfl | rfl <;> decide
  · intro hmem
    exact hspecial (.inl (List.mem_singleton.mp hmem).symm)

/-- An encoded byte has at most two. -/
theorem length_encodeByte_le (oofEnable : Bool) (b : UInt8) :
    (slipEncodeByte oofEnable b).length ≤ 2 := by
  unfold slipEncodeByte
  split_ifs <;> simp

theorem length_encoded_le (oofEnable : Bool) (f : List UInt8) :
    (f.flatMap (slipEncodeByte oofEnable)).length ≤ f.length * 2 := by
  induction f with
  | nil => exact Nat.le_refl 0
  | cons b f ih =>
    have hone := length_encodeByte_le oofEnable b
    rw [List.flatMap_cons, List.length_append, List.length_cons]
    omega

/-- **What the encoder makes** is a packet, at most twice as long. -/
theorem encodePacket_isPacket (oofEnable : Bool) {f : List UInt8} (hlen : 4 ≤ f.length) :
    ∃ x, hciSlipEncodePacket oofEnable f = packet x ∧ IsBody x ∧ x.length ≤ f.length * 2 := by
  refine ⟨f.flatMap (slipEncodeByte oofEnable), rfl, ⟨?_, ?_⟩, length_encoded_le oofEnable f⟩
  · have := length_le_encodePacket oofEnable f
    rw [hciSlipEncodePacket, List.length_cons, List.length_append, List.length_singleton] at this
    omega
  · intro hmem
    obtain ⟨b, -, hb⟩ := List.mem_flatMap.mp hmem
    exact notMem_encodeByte oofEnable b hb

/-! ### The stream -/

/-- **What is still to come**: the receiver's machine is in state `s`, the bytes `p` are on their
way, and `ws` are the packets whose last byte is among them. -/
inductive Pending : Option (List UInt8) → List UInt8 → List (List UInt8) → Prop
  /-- Between two packets. A delimiter before the next one does no harm. -/
  | between {s : Option (List UInt8)} (ws : List (List UInt8)) (hs : s = none ∨ s = some []) :
      Pending s ws.flatten ws
  /-- In a packet, of which `t` has come. -/
  | inside (t y : List UInt8) (ws : List (List UInt8)) (hbody : IsBody (t ++ y)) :
      Pending (some t) (y ++ slipDelimiter :: ws.flatten) (packet (t ++ y) :: ws)
  /-- In a packet that was flushed. -/
  | flushed (y : List UInt8) (ws : List (List UInt8)) (hy : slipDelimiter ∉ y) :
      Pending none (y ++ slipDelimiter :: ws.flatten) ws

variable {s : Option (List UInt8)} {p c : List UInt8} {ws : List (List UInt8)} {b : UInt8}

namespace Pending

/-- Another packet is sent. -/
theorem send (h : Pending s p ws) (ws' : List (List UInt8)) :
    Pending s (p ++ ws'.flatten) (ws ++ ws') := by
  cases h with
  | between ws hs =>
    rw [← List.flatten_append]
    exact .between _ hs
  | inside t y ws hbody =>
    rw [List.append_assoc, List.cons_append, ← List.flatten_append]
    exact .inside t y _ hbody
  | flushed y ws hy =>
    rw [List.append_assoc, List.cons_append, ← List.flatten_append]
    exact .flushed y _ hy

/-- **One byte** closes the oldest packet, or none. -/
theorem byte (h : Pending s (b :: p) ws) (hws : ∀ w ∈ ws, ∃ x, w = packet x ∧ IsBody x) :
    ∃ ws', ws = (slipByte s b).2 ++ ws' ∧ Pending (slipByte s b).1 p ws' := by
  generalize hq : b :: p = q at h
  cases h with
  | between ws hs =>
    cases ws with
    | nil => cases hq
    | cons w ws =>
      obtain ⟨x, rfl, hx⟩ := hws w List.mem_cons_self
      rw [List.flatten_cons, packet, List.cons_append, List.append_assoc] at hq
      obtain ⟨rfl, rfl⟩ := List.cons.inj hq
      have hstep : slipByte s slipDelimiter = (some [], []) := by rcases hs with rfl | rfl <;> rfl
      rw [hstep]
      exact ⟨_, rfl, .inside [] x ws hx⟩
  | inside t y ws hbody =>
    cases y with
    | nil =>
      obtain ⟨rfl, rfl⟩ := List.cons.inj hq
      have ht : t ≠ [] := by
        rintro rfl
        exact absurd hbody.four_le (by decide)
      refine ⟨ws, ?_, ?_⟩
      · simp [slipByte, ht, packet]
      · simp only [slipByte, if_true, if_neg ht]
        exact .between ws (.inl rfl)
    | cons a y =>
      obtain ⟨rfl, rfl⟩ := List.cons.inj hq
      have hb : b ≠ slipDelimiter := by
        rintro rfl
        exact hbody.notMem (by simp)
      rw [show t ++ b :: y = t ++ [b] ++ y by simp] at hbody ⊢
      refine ⟨packet (t ++ [b] ++ y) :: ws, ?_, ?_⟩
      · simp [slipByte, hb]
      · simp only [slipByte, if_neg hb]
        exact .inside (t ++ [b]) y ws hbody
  | flushed y ws hy =>
    cases y with
    | nil =>
      obtain ⟨rfl, rfl⟩ := List.cons.inj hq
      exact ⟨ws, rfl, .between ws (.inr rfl)⟩
    | cons a y =>
      obtain ⟨rfl, rfl⟩ := List.cons.inj hq
      have hb : b ≠ slipDelimiter := by
        rintro rfl
        exact hy List.mem_cons_self
      have hstep : slipByte none b = (none, []) := by simp [slipByte, hb]
      rw [hstep]
      exact ⟨ws, rfl, .flushed y ws fun hmem => hy (List.mem_cons_of_mem b hmem)⟩

/-- **A chunk** closes the oldest packets. -/
theorem read (h : Pending s (c ++ p) ws) (hws : ∀ w ∈ ws, ∃ x, w = packet x ∧ IsBody x) :
    ∃ ws', ws = (frames s c).2 ++ ws' ∧ Pending (frames s c).1 p ws' := by
  induction c generalizing s ws with
  | nil => exact ⟨ws, rfl, h⟩
  | cons b c ih =>
    obtain ⟨ws₁, rfl, hbyte⟩ := h.byte hws
    obtain ⟨ws₂, rfl, hrest⟩ := ih hbyte fun w hw => hws w (List.mem_append_right _ hw)
    exact ⟨ws₂, (List.append_assoc _ _ _).symm, hrest⟩

/-- **A flush** loses the packet that the receiver is in. -/
theorem flush (h : Pending s p ws) : Pending none p ws ∨ Pending none p ws.tail := by
  cases h with
  | between ws hs => exact .inl (.between ws (.inl rfl))
  | inside t y ws hbody =>
    exact .inr (.flushed y ws fun hmem => hbody.notMem (List.mem_append_right t hmem))
  | flushed y ws hy => exact .inl (.flushed y ws hy)

/-! ### The backup buffer -/

/-- Bytes that close no frame are those of the packet. -/
theorem quiet_inside {t x y z : List UInt8} (hbody : IsBody (t ++ x))
    (hy : y <+: x ++ slipDelimiter :: z) (hquiet : (frames (some t) y).2 = []) :
    y.length ≤ x.length ∧ frames (some t) y = (some (t ++ y), []) := by
  induction y generalizing t x with
  | nil => exact ⟨Nat.zero_le _, by rw [List.append_nil]; rfl⟩
  | cons b y ih =>
    cases x with
    | nil =>
      obtain ⟨rfl, -⟩ := List.cons_prefix_cons.mp hy
      have ht : t ≠ [] := by
        rintro rfl
        exact absurd hbody.four_le (by decide)
      rw [frames, feed_cons] at hquiet
      simp [slipByte, ht] at hquiet
    | cons a x =>
      obtain ⟨rfl, hrest⟩ := List.cons_prefix_cons.mp hy
      have hb : b ≠ slipDelimiter := by
        rintro rfl
        exact hbody.notMem (by simp)
      have hstep : slipByte (some t) b = (some (t ++ [b]), []) := by simp [slipByte, hb]
      have hframes : frames (some t) (b :: y) = frames (some (t ++ [b])) y :=
        feed_cons_of_quiet slipByte hstep y
      rw [hframes] at hquiet ⊢
      rw [show t ++ b :: x = t ++ [b] ++ x by simp] at hbody
      obtain ⟨hle, heq⟩ := ih hbody hrest hquiet
      exact ⟨Nat.succ_le_succ hle, by rw [heq, List.append_assoc]; rfl⟩

/-- What is held of an open frame is shorter than its packet. -/
theorem length_held (h : Pending s p ws) (hws : ∀ w ∈ ws, w.length ≤ 2 ^ 8 - 1) :
    (held s).length < 2 ^ 8 := by
  cases h with
  | between ws hs => rcases hs with rfl | rfl <;> decide
  | inside t y ws hbody =>
    have hlen := hws _ List.mem_cons_self
    rw [length_packet, List.length_append] at hlen
    rw [held, List.length_cons]
    omega
  | flushed y ws hy => decide

/-- **The rest of an open frame** in the next chunk is short, when the packets are. -/
theorem short (h : Pending s (c ++ p) ws) (hs : s ≠ none) {size : ℕ}
    (hws : ∀ w ∈ ws, (∃ x, w = packet x ∧ IsBody x) ∧ w.length ≤ 2 ^ 8 - 1 ∧ w.length ≤ size) :
    H5Tr.Short (2 ^ 8 - 1) size s c := by
  intro y z hyz hquiet
  have hpre : y ++ [z] <+: c ++ p := hyz.trans (List.prefix_append c p)
  generalize c ++ p = q at h hpre
  cases h with
  | between ws hnone =>
    obtain rfl := hnone.resolve_left hs
    cases ws with
    | nil => exact absurd (List.prefix_nil.mp hpre) (by simp)
    | cons w ws =>
      obtain ⟨⟨x, rfl, hx⟩, hle, hsize⟩ := hws w List.mem_cons_self
      rw [length_packet] at hle hsize
      have hfour := hx.four_le
      cases y with
      | nil => exact ⟨by decide, by decide, (show 1 < size by omega)⟩
      | cons b y =>
        -- the delimiter that opens the packet, once more
        rw [List.flatten_cons, packet, List.cons_append, List.cons_append,
          List.append_assoc] at hpre
        obtain ⟨rfl, hrest⟩ := List.cons_prefix_cons.mp hpre
        have hframes : frames (some []) (slipDelimiter :: y) = frames (some []) y := rfl
        rw [hframes] at hquiet ⊢
        obtain ⟨hy, heq⟩ := quiet_inside (t := []) hx
          ((List.prefix_append y [z]).trans hrest) hquiet
        rw [heq]
        simp only [held, List.nil_append, List.length_cons]
        omega
  | inside t x ws hbody =>
    obtain ⟨-, hle, hsize⟩ := hws _ List.mem_cons_self
    rw [length_packet, List.length_append] at hle hsize
    obtain ⟨hy, heq⟩ := quiet_inside hbody ((List.prefix_append y [z]).trans hpre) hquiet
    rw [heq]
    simp only [held, List.length_cons, List.length_append]
    omega
  | flushed y ws hy => exact absurd rfl hs

end Pending

/-! ### The chunks that have come -/

namespace UartRx

variable {r : UartRx}

/-- The chunks not read. -/
def unread (r : UartRx) : List (List UInt8) := (r.received.map Prod.snd).drop r.processed.length

/-- A chunk comes. -/
theorem Ok.unread_rxDone (h : r.Ok) {chunk : List UInt8} (hne : chunk ≠ [])
    (hslot : r.rxFifo.count + 1 < r.rxFifo.num) :
    (step Transport.h5.irq r (.rxDone chunk)).Ok ∧
      (step Transport.h5.irq r (.rxDone chunk)).unread = r.unread ++ [chunk] := by
  refine ⟨h.next (.inr rfl) (.inr hslot), ?_⟩
  have hle : r.processed.length ≤ (r.received.map Prod.snd).length := h.order.length_le
  rw [step, show Transport.h5.irq = irqHandler h5IsFull from rfl, h.rxDone (.inr rfl) hne, unread,
    unread]
  simp only [List.map_append, List.map_cons, List.map_nil]
  rw [List.drop_append_of_le_length hle]

/-- A chunk is read. -/
theorem Ok.unread_poll (h : r.Ok) (hne : r.rxFifo.wptr ≠ r.rxFifo.rptr) :
    (r.rxHandler).Ok ∧ r.unread = r.rxFifo.get r.rxFifo.rptr :: r.rxHandler.unread := by
  have hfull : h5IsFull = h4IsFull ∨ h5IsFull = h5IsFull := .inr rfl
  refine ⟨h.next hfull (i := .poll) trivial, ?_⟩
  obtain ⟨hlt, hget, -⟩ := h.holds.read hne
  rw [rxHandler, if_neg hne, unread, unread]
  simp only [List.length_append, List.length_singleton]
  rw [hget, List.drop_eq_getElem_cons hlt]
  rfl

end UartRx

end TcBle.HciTransport
