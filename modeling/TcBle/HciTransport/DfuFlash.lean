import TcBle.Drivers.Flash
import TcBle.HciTransport.DfuBounds

/-!
# An update on the chip

The port of the DFU writes and erases through the flash driver. The device of
`TcBle.HciTransport.Dfu` keeps the flash as a plain memory and lists what is done to it. Here the
list goes to the driver, and the driver's frames to a chip.

## What is proved

* `run_driven` — what an update does to the flash, in any run, is what the driver can do.
* `run_chip` — the chip has the memory of the device after every run, and is read so.
-/

namespace TcBle.HciTransport

open TcBle.Foundation TcBle.Drivers SerialFlash

namespace Dev

/-- What the driver can do: a write, or the erase of one sector, with addresses of three bytes. -/
structure Driven (op : FlashOp) : Prop where
  /-- The addresses. -/
  within : op.Within 0 (2 ^ 24)
  /-- An erase is of one sector. -/
  sector : ∀ addr len, op = .erase addr len → addr % sectorSize = 0 ∧ len = sectorSize

/-- The request to the driver; what is written is in the RAM. -/
def request : FlashOp → FlashRequest
  | .write addr data => .program addr data.length (.ram fun i => data.getD i 0xff)
  | .erase addr _ => .erase addr

/-- An update has received at most one payload more than was announced. -/
structure Announced (c : DfuCb) : Prop where
  /-- What has been received. -/
  offset : c.fwOffset < c.newFwSize + dfuMaxPayload
  /-- What was announced. -/
  size : c.newFwSize ≤ c.maxFwSize

variable {L : SlotLayout} {d : Dev} {i : DfuInput}

theorem Announced.cleared {c : DfuCb} (h : c.Cleared) : Announced c := by
  refine ⟨?_, ?_⟩
  · rw [h.fwOffset, h.newFwSize]
    decide
  · rw [h.newFwSize]
    exact Nat.zero_le _

theorem driven_write {addr : ℕ} {data : List UInt8} (h : addr + data.length ≤ 2 ^ 24) :
    Driven (.write addr data) := ⟨⟨Nat.zero_le _, h⟩, fun _ _ h => by cases h⟩

/-- The writes of `FLASH_WritePage` are no erases. -/
theorem writePageOps_write {fuel addr : ℕ} {data : List UInt8} :
    ∀ op ∈ writePageOps fuel addr data, ∃ a bs, op = .write a bs := by
  induction fuel generalizing addr data with
  | zero => simp [writePageOps]
  | succ fuel ih =>
    unfold writePageOps
    split
    · simp
    · intro op hop
      rcases List.mem_cons.mp hop with rfl | hop
      · exact ⟨_, _, rfl⟩
      · exact ih op hop

/-- The erases of the loop are of sectors. -/
theorem eraseSectorsOps_erase {n addr : ℕ} :
    ∀ op ∈ eraseSectorsOps n addr, ∃ a, op = .erase (a / 0x1000 * 0x1000) 0x1000 := by
  induction n generalizing addr with
  | zero => simp [eraseSectorsOps]
  | succ n ih =>
    intro op hop
    rcases List.mem_cons.mp hop with rfl | hop
    · exact ⟨addr, rfl⟩
    · exact ih op hop

theorem writePageOps_driven {fuel addr : ℕ} {data : List UInt8}
    (h : addr + data.length ≤ 2 ^ 24) : ∀ op ∈ writePageOps fuel addr data, Driven op := by
  intro op hop
  have hwithin := writePageOps_within (Nat.zero_le addr) h op hop
  obtain ⟨a, bs, rfl⟩ := writePageOps_write op hop
  exact driven_write hwithin.2

theorem eraseSectorsOps_driven {n addr : ℕ} (haddr : addr % 0x1000 = 0)
    (h : addr + n * 0x1000 ≤ 2 ^ 24) : ∀ op ∈ eraseSectorsOps n addr, Driven op := by
  intro op hop
  refine ⟨(eraseSectorsOps_within haddr op hop).mono (Nat.zero_le _) h, ?_⟩
  obtain ⟨a, rfl⟩ := eraseSectorsOps_erase op hop
  rintro _ _ ⟨⟩
  exact ⟨Nat.mul_mod_left _ _, rfl⟩

/-- **What one input does** to the flash is what the driver can do. -/
theorem Announced.step (hd : Announced d.cb) (hL : L.Of d.cb) (hbound : L.next + 0x20000 ≤ 2 ^ 24) :
    Announced (d.step i).cb ∧ ∀ op ∈ d.newOps i, Driven op := by
  obtain ⟨-, effect⟩ := d.step_effect i
  generalize d.newOps i = ops at effect ⊢
  generalize d.answers i = evts at effect
  have hslots := effect.sameSlots
  cases effect with
  | quiet _ image =>
    refine ⟨⟨?_, ?_⟩, by simp⟩
    · rw [image.fwOffset, image.newFwSize]
      exact hd.offset
    · rw [image.newFwSize, hslots.maxFwSize]
      exact hd.size
  | tooLarge _ cleared => exact ⟨.cleared cleared, by simp⟩
  | start _ _ _ size offset =>
    refine ⟨⟨?_, ?_⟩, by simp⟩
    · rw [offset]
      exact Nat.lt_of_lt_of_le (by decide) (Nat.le_add_left _ _)
    · rw [hslots.maxFwSize]
      exact size
  | data takes _ size offset =>
    have hroom := takes.room
    have hlen := takes.len
    have hsize := hd.size
    refine ⟨⟨?_, ?_⟩, writePageOps_driven ?_⟩
    · rw [size, offset]
      omega
    · rw [size, hslots.maxFwSize]
      exact hsize
    · rw [length_bytes, hL.nextFwAddrStart]
      rw [hL.maxFwSize] at hsize
      simp only [dfuNewFwMaxSize, dfuMaxPayload] at *
      omega
  | switch _ _ image =>
    refine ⟨⟨?_, ?_⟩, ?_⟩
    · rw [image.fwOffset, image.newFwSize]
      exact hd.offset
    · rw [image.newFwSize, hslots.maxFwSize]
      exact hd.size
    · have hrun : L.running ≤ 0x20000 := by
        unfold SlotLayout.running
        split <;> decide
      rw [hL.nextFwAddrStart, hL.running_eq]
      rintro op (_ | ⟨_, _ | ⟨_, ⟨⟩⟩⟩)
      · exact driven_write (by simp only [List.length_singleton]; omega)
      · exact driven_write (by simp only [List.length_singleton]; omega)
  | blank _ _ cleared => exact ⟨.cleared cleared, by simp⟩
  | erase _ _ cleared =>
    refine ⟨.cleared cleared, eraseSectorsOps_driven ?_ ?_⟩
    · rw [hL.nextFwAddrStart]
      exact L.aligned
    · rw [hL.nextFwAddrStart, hL.maxFwSize]
      simp only [dfuNewFwMaxSize]
      omega

/-- **What an update does** to the flash, in any run, is what the driver can do. -/
theorem run_driven (L : SlotLayout) (hbound : L.next + 0x20000 ≤ 2 ^ 24) (flash : Flash)
    (is : List DfuInput) : ∀ op ∈ (run L.next flash is).ops, Driven op := by
  have htrue : Run.Along step (fun _ _ => True) (dfuInit L.next flash) is :=
    Run.along_iff.mpr fun _ _ _ _ => trivial
  refine (htrue.induction (P := fun _ d => L.Of d.cb ∧ Announced d.cb ∧ ∀ op ∈ d.ops, Driven op)
    ?_ ?_).2.2
  · rw [dfuInit_cb]
    refine ⟨⟨rfl, rfl, rfl⟩, ⟨Nat.zero_lt_succ _, Nat.zero_le _⟩, ?_⟩
    simp only [dfuInit, dfuEraseNewFwArea]
    split
    · simp
    · rw [eraseSectors_eq, flashOps_ops]
      have hmax : (dfuInitCb L.next).maxFwSize = dfuNewFwMaxSize := rfl
      have hnext : (dfuInitCb L.next).nextFwAddrStart = L.next := rfl
      simp only [hmax, hnext, Nat.add_zero, List.nil_append]
      refine eraseSectorsOps_driven L.aligned (hbound.trans' (Nat.add_le_add_left ?_ L.next))
      decide
  · rintro is i ⟨hL, hd, hops⟩ -
    obtain ⟨after, effect⟩ := step_effect (is.foldl step (dfuInit L.next flash)) i
    obtain ⟨hd', hnew⟩ := hd.step (i := i) hL hbound
    refine ⟨hL.sameSlots effect.sameSlots, hd', fun op hop => ?_⟩
    rw [after.ops] at hop
    exact (List.mem_append.mp hop).elim (hops op) (hnew op)

/-! ### On the chip -/

variable {c : SerialFlash}

/-- The requests for a list of operations do to a plain memory what the operations do. -/
theorem plainAll_request (mem : Flash) {ops : List FlashOp} (hops : ∀ op ∈ ops, Driven op) :
    (plainAll mem (ops.map request)).1 = mem.replay ops := by
  induction ops generalizing mem with
  | nil => rfl
  | cons op ops ih =>
    have hop := hops op List.mem_cons_self
    have hone : ((request op).plain mem).1 = op.apply mem := by
      cases op with
      | write addr data =>
        refine congrArg (mem.program addr) (List.ext_getElem (by simp [Source.get]) ?_)
        intro j _ hj
        simp [Source.get, List.getD_eq_getElem?_getD, List.getElem?_eq_getElem hj]
      | erase addr len =>
        obtain ⟨haligned, rfl⟩ := hop.sector addr len rfl
        have hstart : sectorOf addr = addr := by
          simp only [sectorOf, sectorSize] at *
          omega
        simp only [request, FlashRequest.plain, hstart, FlashOp.apply]
    rw [List.map_cons, plainAll, Flash.replay_cons, hone]
    exact ih _ fun op' hop' => hops op' (List.mem_cons_of_mem op hop')

/-- The driver can serve the request for an operation when nothing is protected. -/
theorem Driven.fits {op : FlashOp} (hop : Driven op)
    (hopen : ∀ a, c.protects c.status a = false) : (request op).Fits c := by
  cases op with
  | write addr data =>
    exact ⟨hop.within.2, fun _ _ _ _ => hopen _, fun h => absurd h Bool.false_ne_true, trivial⟩
  | erase addr len =>
    obtain ⟨-, rfl⟩ := hop.sector addr len rfl
    have hend := hop.within.2
    refine ⟨?_, fun _ _ => hopen _⟩
    simp only [sectorSize] at hend
    omega

/-- **An update on the chip.** After any run the driver has brought the chip, however long its
writes take, to the memory of the device; and it reads it so. -/
theorem run_chip (L : SlotLayout) (hbound : L.next + 0x20000 ≤ 2 ^ 24) (hc : Ready c)
    (hopen : ∀ a, c.protects c.status a = false) (is : List DfuInput) :
    ∃ c' out, serveAll c ((run L.next c.mem is).ops.map request) = some (c', out) ∧ Ready c' ∧
      ∀ addr < 2 ^ 24, ∀ len,
        flashReadData addr len c' = (c', (run L.next c.mem is).flash.read addr len) := by
  have hops := run_driven L hbound c.mem is
  obtain ⟨c', hserve, hleaves⟩ := serveAll_leaves hc ((run L.next c.mem is).ops.map request)
    fun r hr => by
      obtain ⟨op, hop, rfl⟩ := List.mem_map.mp hr
      exact (hops op hop).fits hopen
  have hmem : c'.mem = (run L.next c.mem is).flash := by
    rw [hleaves.mem, plainAll_request c.mem hops, ← run_replay]
  refine ⟨c', _, hserve, hleaves.ready, fun addr haddr len => ?_⟩
  rw [flashReadData_eq hleaves.ready, Nat.mod_eq_of_lt haddr, hmem]

/-- An update of one payload, on a chip. -/
theorem run_chip_one :
    ∃ c' out, serveAll (sampleChip markedFlash) ((run 0x20000 markedFlash
        [startCmd 16, fwDataCmd smallImage]).ops.map request) = some (c', out) ∧ Ready c' ∧
      ∀ addr < 2 ^ 24, ∀ len, flashReadData addr len c' =
        (c', (run 0x20000 markedFlash [startCmd 16, fwDataCmd smallImage]).flash.read addr len) :=
  run_chip ⟨0x20000, by decide, .inr (Nat.le_refl _)⟩ (by decide) (sampleChip_ready markedFlash)
    (fun _ => rfl) [startCmd 16, fwDataCmd smallImage]

end Dev

end TcBle.HciTransport
