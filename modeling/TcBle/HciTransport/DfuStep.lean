import TcBle.Foundation.Run
import TcBle.HciTransport.Dfu

/-!
# What a step of the firmware update can do

Every input does one of seven things to the device, `Effect`: nothing to the image,
a reset of the control block, the start of an update, a payload taken, the boot marks
switched, the area for the new firmware erased, or the reboot. `step_effect` says so
of every input in every state; the invariants of the runs are proved from it, without
going back to the handlers.

Also here: what the port's loops do to the flash (`replay_writePageOps`,
`eraseSectors_flash`), the session of a run — whether an update was started, and the
payloads accepted since — and the induction over a run.
-/

namespace TcBle.HciTransport

open TcBle.Foundation

namespace Dev

/-! ### The port -/

@[simp] theorem flashOps_cb (ops : List FlashOp) (d : Dev) : (d.flashOps ops).cb = d.cb := rfl
@[simp] theorem flashOps_flash (ops : List FlashOp) (d : Dev) :
    (d.flashOps ops).flash = d.flash.replay ops := rfl
@[simp] theorem flashOps_ops (ops : List FlashOp) (d : Dev) : (d.flashOps ops).ops = d.ops ++ ops :=
    rfl
@[simp] theorem flashOps_evts (ops : List FlashOp) (d : Dev) : (d.flashOps ops).evts = d.evts := rfl
@[simp] theorem flashOps_halted (ops : List FlashOp) (d : Dev) :
    (d.flashOps ops).halted = d.halted := rfl

/-- The loop of `FLASH_WritePage` cut after any of its writes has written the start of
the data. -/
theorem replay_writePageOps_prefix {fuel : ℕ} {f : Flash} {addr : ℕ} {data : List UInt8}
    {pre : List FlashOp} (hp : pre <+: writePageOps fuel addr data) :
    ∃ n, f.replay pre = f.program addr (data.take n) := by
  induction fuel generalizing f addr data pre with
  | zero =>
    rw [writePageOps, List.prefix_nil] at hp
    exact ⟨0, by simp [hp]⟩
  | succ fuel ih =>
    unfold writePageOps at hp
    split at hp
    · rw [List.prefix_nil] at hp
      exact ⟨0, by simp [hp]⟩
    · cases pre with
      | nil => exact ⟨0, by simp⟩
      | cons op pre =>
        rw [List.cons_prefix_cons] at hp
        obtain ⟨rfl, hp⟩ := hp
        by_cases hlen : data.length ≤ 16
        · -- the data fits in one write: nothing is left
          have hnil : pre = [] := by
            rw [List.drop_eq_nil_of_le hlen] at hp
            cases fuel <;> simpa [writePageOps] using hp
          subst hnil
          exact ⟨16, rfl⟩
        · obtain ⟨n, hn⟩ := ih (f := (FlashOp.write addr (data.take 16)).apply f) hp
          have h16 : (data.take 16).length = 16 := by simp; omega
          refine ⟨16 + n, ?_⟩
          rw [Flash.replay_cons, hn, List.take_add, Flash.program_append, h16]
          rfl

/-- The loop of `FLASH_WritePage` writes the data. -/
theorem replay_writePageOps {fuel : ℕ} {f : Flash} {addr : ℕ} {data : List UInt8}
    (h : data.length ≤ fuel) : f.replay (writePageOps fuel addr data) = f.program addr data := by
  induction fuel generalizing f addr data with
  | zero => simp [writePageOps, List.eq_nil_of_length_eq_zero (Nat.le_zero.mp h)]
  | succ fuel ih =>
    unfold writePageOps
    split
    · rename_i hd
      simp [hd]
    · rename_i hd
      have hpos : 0 < data.length := List.length_pos_iff.mpr hd
      rw [Flash.replay_cons, ih (by rw [List.length_drop]; omega)]
      by_cases hlen : data.length ≤ 16
      · rw [List.drop_eq_nil_of_le hlen, Flash.program_nil, List.take_of_length_le hlen]
        rfl
      · conv_rhs => rw [← List.take_append_drop 16 data, Flash.program_append]
        rw [List.length_take, Nat.min_eq_left (by omega)]
        rfl

/-- The writes of `FLASH_WritePage` stay in the range of the data. -/
theorem writePageOps_within {fuel : ℕ} {addr lo hi : ℕ} {data : List UInt8} (h₁ : lo ≤ addr)
    (h₂ : addr + data.length ≤ hi) : ∀ op ∈ writePageOps fuel addr data, op.Within lo hi := by
  induction fuel generalizing addr data with
  | zero => simp [writePageOps]
  | succ fuel ih =>
    unfold writePageOps
    split
    · simp
    · intro op hop
      rcases List.mem_cons.mp hop with rfl | hop
      · refine ⟨h₁, ?_⟩
        rw [List.length_take]
        omega
      · by_cases hlen : data.length ≤ 16
        · rw [List.drop_eq_nil_of_le hlen] at hop
          cases fuel <;> simp [writePageOps] at hop
        · exact ih (by omega) (by rw [List.length_drop]; omega) op hop

/-- The operations of the loop over the sectors. -/
def eraseSectorsOps : ℕ → ℕ → List FlashOp
  | 0, _ => []
  | n + 1, addr => .erase (addr / 0x1000 * 0x1000) 0x1000 :: eraseSectorsOps n (addr + 0x1000)

theorem eraseSectors_eq (n i : ℕ) (d : Dev) :
    d.eraseSectors n i = d.flashOps (eraseSectorsOps n (d.cb.nextFwAddrStart + i)) := by
  induction n generalizing i d with
  | zero => simp [eraseSectors, eraseSectorsOps, flashOps]
  | succ n ih =>
    rw [eraseSectors, ih]
    simp [flashEraseSector, flashOp, flashOps, eraseSectorsOps, Nat.add_assoc]

theorem eraseSectorsOps_within {n addr : ℕ} (h : addr % 0x1000 = 0) :
    ∀ op ∈ eraseSectorsOps n addr, op.Within addr (addr + n * 0x1000) := by
  induction n generalizing addr with
  | zero => simp [eraseSectorsOps]
  | succ n ih =>
    intro op hop
    rcases List.mem_cons.mp hop with rfl | hop
    · constructor <;> omega
    · exact (ih (by omega) op hop).mono (by omega) (by omega)

/-- The loop over the sectors erases them. -/
theorem replay_eraseSectorsOps {n addr : ℕ} {f : Flash} (h : addr % 0x1000 = 0) :
    f.replay (eraseSectorsOps n addr) = f.erase addr (n * 0x1000) := by
  induction n generalizing addr f with
  | zero =>
    funext a
    rw [Flash.erase_other f (by omega)]
    rfl
  | succ n ih =>
    have haddr : addr / 0x1000 * 0x1000 = addr := by omega
    rw [eraseSectorsOps, Flash.replay_cons, ih (by omega), haddr]
    funext a
    simp only [FlashOp.apply, Flash.erase]
    split_ifs <;> first | rfl | omega

end Dev

/-! ### Inputs and answers -/

namespace DfuInput

/-- The input is the command `opcode`. -/
def IsCmd (opcode : ℕ) : DfuInput → Prop
  | .hci pkt _ => u16At (adv pkt 1) = opcode
  | .task _ _ => False

instance (opcode : ℕ) : (i : DfuInput) → Decidable (i.IsCmd opcode)
  | .hci pkt _ => inferInstanceAs (Decidable (u16At (adv pkt 1) = opcode))
  | .task _ _ => instDecidableFalse

/-- The input is `HCI_End_Dfu` with `DFU_END_MODE_FW_UPD`. -/
def IsEndFwUpd : DfuInput → Prop
  | .hci pkt _ => u16At (adv pkt 1) = hciOpcodeVsEndDfu ∧ pkt 4 = 0x00
  | .task _ _ => False

instance : (i : DfuInput) → Decidable i.IsEndFwUpd
  | .hci pkt _ => inferInstanceAs (Decidable (u16At (adv pkt 1) = hciOpcodeVsEndDfu ∧ pkt 4 = 0x00))
  | .task _ _ => instDecidableFalse

/-- The parameters of a command. -/
def param : DfuInput → Mem
  | .hci pkt _ => adv pkt 4
  | .task _ _ => fun _ => 0

/-- The length of the parameters of a command. -/
def paramLen : DfuInput → ℕ
  | .hci pkt _ => (pkt 3).toNat
  | .task _ _ => 0

/-- The length of the payload of `HCI_Fw_Data`: that of the parameters less the check. -/
def dataLen : DfuInput → ℕ
  | .hci pkt _ => subU32 (pkt 3).toNat dfuChecksumLen
  | .task _ _ => 0

/-- The payload of `HCI_Fw_Data`. -/
def payload (i : DfuInput) : List UInt8 := bytes i.param i.dataLen

end DfuInput

/-- `HCI_Start_Dfu` answered with success. -/
def startOk : HciEvt :=
    .cmdCmpl hciOpcodeVsStartDfu [DfuErr.success.code, UInt8.ofNat dfuMaxPayload, 0]

/-- `HCI_Fw_Data` answered with success. -/
def dataOk : HciEvt := .cmdStatus hciOpcodeVsFwData DfuErr.success.code

/-- `HCI_End_Dfu` answered with success. -/
def endOk : HciEvt := .cmdCmpl hciOpcodeVsEndDfu [DfuErr.success.code]

namespace DfuCb

/-- The slots are the same. -/
structure SameSlots (c c' : DfuCb) : Prop where
  /-- The running image's slot when the other one is at `0`. -/
  newFwAddrStart : c'.newFwAddrStart = c.newFwAddrStart
  /-- The size of the area. -/
  maxFwSize : c'.maxFwSize = c.maxFwSize
  /-- The area. -/
  nextFwAddrStart : c'.nextFwAddrStart = c.nextFwAddrStart

/-- What is known of the image is the same. -/
structure SameImage (c c' : DfuCb) : Prop where
  /-- The announced size. -/
  newFwSize : c'.newFwSize = c.newFwSize
  /-- How much has been received. -/
  fwOffset : c'.fwOffset = c.fwOffset
  /-- The check. -/
  curCrc : c'.curCrc = c.curCrc

/-- Nothing is known of an image, and no payload is accepted. -/
structure Cleared (c : DfuCb) : Prop where
  /-- No size. -/
  newFwSize : c.newFwSize = 0
  /-- Nothing received. -/
  fwOffset : c.fwOffset = 0
  /-- Not started. -/
  status : c.status ≠ .start

/-- A step that keeps the image and does not start an update leaves nothing known. -/
theorem Cleared.sameImage {c c' : DfuCb} (h : c.Cleared) (image : c.SameImage c')
    (status : c'.status = .start → c.status = .start) : c'.Cleared :=
  ⟨image.newFwSize.trans h.newFwSize, image.fwOffset.trans h.fwOffset,
    fun hstart => h.status (status hstart)⟩

/-- The start of the slot of the running image. -/
def running (c : DfuCb) : ℕ := if c.nextFwAddrStart = 0 then c.newFwAddrStart else 0

end DfuCb

namespace Dev

/-- A round of the main loop that gives the update up: it was terminated, or timed out. -/
def Resets (d : Dev) : DfuInput → Prop
  | .hci _ _ => False
  | .task idle now => d.halted = false ∧ ¬(d.cb.status = .ended ∧ idle) ∧
      ((d.cb.status = .term ∧ idle) ∨ d.dfuTimedOut now)

instance (d : Dev) : (i : DfuInput) → Decidable (d.Resets i)
  | .hci _ _ => instDecidableFalse
  | .task idle now => inferInstanceAs (Decidable (d.halted = false ∧
      ¬(d.cb.status = .ended ∧ idle) ∧ ((d.cb.status = .term ∧ idle) ∨ d.dfuTimedOut now)))

/-- `HCI_Fw_Data` finds what it needs for its payload to be taken. -/
structure TakesPayload (d : Dev) (i : DfuInput) : Prop where
  /-- The device runs. -/
  runs : d.halted = false
  /-- It is `HCI_Fw_Data`. -/
  hcmd : i.IsCmd hciOpcodeVsFwData
  /-- There were not too many bad pieces. -/
  resend : d.cb.resendCnt < dfuResendCnt
  /-- An update was started. -/
  started : d.cb.status = .start
  /-- The payload is not too long. -/
  len : i.dataLen ≤ dfuMaxPayload
  /-- The parameters pass their check. -/
  check : dfuCrc32Calc dfuCrcInitValue (bytes i.param i.paramLen) = 0#32
  /-- The image is not complete. -/
  room : d.cb.fwOffset < d.cb.newFwSize

/-- `HCI_End_Dfu` finds what it needs to switch the boot marks. -/
structure SwitchesMarks (d : Dev) (i : DfuInput) : Prop where
  /-- The device runs. -/
  runs : d.halted = false
  /-- It is the end of an image. -/
  hcmd : i.IsEndFwUpd
  /-- As much was received as was announced. -/
  whole : d.cb.fwOffset = d.cb.newFwSize
  /-- The check is zero. -/
  crc : d.cb.curCrc = 0#32

/-! ### The seven effects -/

/-- **What an input does** to a device `d`: the flash operations performed, the events
sent, and the control block after it. -/
inductive Effect (d : Dev) (i : DfuInput) : List FlashOp → List HciEvt → DfuCb → Prop
  /-- Nothing happens to the image: an error, an unknown command, the end of an update
  that is not complete, a round of the main loop with nothing to do, the reboot. -/
  | quiet {evts : List HciEvt} {c : DfuCb} (slots : d.cb.SameSlots c) (image : d.cb.SameImage c)
      (status : c.status = .start → d.cb.status = .start) (hstart : startOk ∉ evts)
      (hdata : dataOk ∉ evts) (hend : i.IsEndFwUpd → endOk ∉ evts) : Effect d i [] evts c
  /-- `HCI_Start_Dfu` of an image that is too large. -/
  | tooLarge {c : DfuCb} (slots : d.cb.SameSlots c) (cleared : c.Cleared)
      (crc : c.curCrc = dfuCrcInitValue) :
      Effect d i [] [.cmdCmpl hciOpcodeVsStartDfu [DfuErr.invalidParam.code]] c
  /-- An update is started. -/
  | start {c : DfuCb} (hcmd : i.IsCmd hciOpcodeVsStartDfu) (idle : d.cb.status ≠ .start)
      (slots : d.cb.SameSlots c) (size : c.newFwSize ≤ d.cb.maxFwSize) (offset : c.fwOffset = 0)
      (crc : c.curCrc = dfuCrcInitValue) : Effect d i [] [startOk] c
  /-- A payload is taken. -/
  | data {c : DfuCb} (takes : d.TakesPayload i) (slots : d.cb.SameSlots c)
      (size : c.newFwSize = d.cb.newFwSize)
      (offset : c.fwOffset = d.cb.fwOffset + i.dataLen)
      (crc : c.curCrc = dfuCrc32Calc d.cb.curCrc (bytes (d.checkedBuf i.param i.dataLen
        (d.flash.program (d.cb.nextFwAddrStart + d.cb.fwOffset)
          (bytes (d.maskedParam i.param i.dataLen) i.dataLen))) i.dataLen)) :
      Effect d i (writePageOps i.dataLen (d.cb.nextFwAddrStart + d.cb.fwOffset)
        (bytes (d.maskedParam i.param i.dataLen) i.dataLen)) [dataOk] c
  /-- The boot marks are switched. -/
  | switch {c : DfuCb} (switches : d.SwitchesMarks i) (slots : d.cb.SameSlots c)
      (image : d.cb.SameImage c) (status : c.status = .ended) :
      Effect d i [.write (d.cb.nextFwAddrStart + 0x8) [0x4b], .write (d.cb.running + 0x8) [0x00]]
        [endOk] c
  /-- The area for the new firmware looks blank and is left alone. -/
  | blank {c : DfuCb} (hres : d.Resets i) (slots : d.cb.SameSlots c) (cleared : c.Cleared)
      (crc : c.curCrc = dfuCrcInitValue) (blank : d.sampledBlank = true) : Effect d i [] [] c
  /-- The area for the new firmware is erased. -/
  | erase {c : DfuCb} (hres : d.Resets i) (slots : d.cb.SameSlots c) (cleared : c.Cleared)
      (crc : c.curCrc = dfuCrcInitValue) (blank : d.sampledBlank = false) :
      Effect d i (eraseSectorsOps ((d.cb.maxFwSize + 0xFFF) / 0x1000) d.cb.nextFwAddrStart) [] c

/-- The device after an effect, with its traces. -/
structure After (d : Dev) (ops : List FlashOp) (evts : List HciEvt) (d' : Dev) : Prop where
  /-- The flash. -/
  flash : d'.flash = d.flash.replay ops
  /-- The operations performed. -/
  ops : d'.ops = d.ops ++ ops
  /-- The events sent. -/
  evts : d'.evts = d.evts ++ evts

/-- `d'` is what input `i` makes of `d`. -/
def Does (d : Dev) (i : DfuInput) (d' : Dev) : Prop :=
  ∃ ops evts, d.After ops evts d' ∧ d.Effect i ops evts d'.cb

/-- A step that keeps the image, the slots, the flash and a status that is not `START`. -/
theorem does_quiet {d d' : Dev} {i : DfuInput} (evts : List HciEvt) (hflash : d'.flash = d.flash)
    (hops : d'.ops = d.ops) (hevts : d'.evts = d.evts ++ evts) (slots : d.cb.SameSlots d'.cb)
    (image : d.cb.SameImage d'.cb) (status : d'.cb.status = .start → d.cb.status = .start)
    (hstart : startOk ∉ evts) (hdata : dataOk ∉ evts) (hend : i.IsEndFwUpd → endOk ∉ evts) :
    d.Does i d' :=
  ⟨[], evts, ⟨hflash, by simp [hops], hevts⟩, .quiet slots image status hstart hdata hend⟩

theorem dfuEraseNewFwArea_cb (d : Dev) : d.dfuEraseNewFwArea.cb = d.cb := by
  unfold dfuEraseNewFwArea
  split
  · rfl
  · rw [eraseSectors_eq]
    rfl

/-- Erasing looks at the control block only for where the area is. -/
theorem dfuEraseNewFwArea_withCb {d : Dev} {c : DfuCb} (h : d.cb.SameSlots c) :
    { d with cb := c }.dfuEraseNewFwArea = { d.dfuEraseNewFwArea with cb := c } := by
  have hb : { d with cb := c }.sampledBlank = d.sampledBlank := by
    simp [sampledBlank, h.nextFwAddrStart, h.maxFwSize]
  unfold dfuEraseNewFwArea
  rw [hb]
  split
  · rfl
  · simp [eraseSectors_eq, flashOps, h.nextFwAddrStart, h.maxFwSize]

/-- The area is erased and the control block reset. -/
theorem does_erase {d : Dev} {i : DfuInput} (hres : d.Resets i) :
    d.Does i { d.dfuEraseNewFwArea with cb := d.dfuReset.cb } := by
  have slots : d.cb.SameSlots d.dfuReset.cb := ⟨rfl, rfl, rfl⟩
  have cleared : d.dfuReset.cb.Cleared := ⟨rfl, rfl, by simp [dfuReset]⟩
  cases hb : d.sampledBlank with
  | true =>
    have he : d.dfuEraseNewFwArea = d := by simp [dfuEraseNewFwArea, hb]
    rw [he]
    exact ⟨[], [], ⟨rfl, by simp, by simp⟩, .blank hres slots cleared rfl hb⟩
  | false =>
    have he : d.dfuEraseNewFwArea = d.flashOps (eraseSectorsOps ((d.cb.maxFwSize + 0xFFF) / 0x1000)
        d.cb.nextFwAddrStart) := by
      simp [dfuEraseNewFwArea, hb, eraseSectors_eq]
    rw [he]
    exact ⟨_, [], ⟨rfl, rfl, by simp⟩, .erase hres slots cleared rfl hb⟩

theorem dfuStart_does {d : Dev} {i : DfuInput} {n : ℕ} {now : UInt32}
    (hcmd : i.IsCmd hciOpcodeVsStartDfu) (idle : d.cb.status ≠ .start) (hn : n ≤ d.cb.maxFwSize) :
    d.Does i (d.dfuStart n now) :=
  ⟨[], [startOk], ⟨rfl, by simp [dfuStart, hciSendCmdCmplEvt, dfuReset], rfl⟩,
    .start hcmd idle ⟨rfl, rfl, rfl⟩ hn rfl rfl⟩

/-- An event about something else. -/
theorem does_answer {d : Dev} {pkt : Mem} {now : UInt32} {opcode : ℕ} {err : DfuErr}
    (herr : err ≠ .success) :
    d.Does (.hci pkt now) (d.hciSendCmdCmplStatusEvt opcode err) := by
  refine does_quiet [.cmdCmpl opcode [err.code]] rfl rfl rfl ⟨rfl, rfl, rfl⟩
    ⟨rfl, rfl, rfl⟩ id ?_ ?_ fun _ => ?_
  · simp [startOk]
  · simp [dataOk]
  · cases err <;> simp_all [endOk, DfuErr.code]

/-- `DFU_StartDfuCmdHandler`. -/
theorem dfuStartDfuCmdHandler_does (d : Dev) {pkt : Mem} (now : UInt32)
    (hcmd : (DfuInput.hci pkt now).IsCmd hciOpcodeVsStartDfu) :
    d.Does (.hci pkt now) (d.dfuStartDfuCmdHandler (adv pkt 4) now) := by
  unfold dfuStartDfuCmdHandler
  simp only
  split_ifs with h₁ h₂ h₃ h₄ h₅ h₆ h₇
  · exact does_answer (by simp)
  · refine ⟨[], _, ⟨rfl, by simp [hciSendCmdCmplStatusEvt, hciSendCmdCmplEvt, dfuReset], rfl⟩,
      .tooLarge ⟨rfl, rfl, rfl⟩ ⟨rfl, rfl, ?_⟩ rfl⟩
    simp [hciSendCmdCmplStatusEvt, hciSendCmdCmplEvt, dfuReset]
  · exact dfuStart_does hcmd h₁ (not_lt.mp h₂)
  · exact does_answer (by simp)
  · exact dfuStart_does hcmd h₁ (not_lt.mp h₂)
  · exact does_answer (by simp)
  · exact dfuStart_does hcmd h₁ (not_lt.mp h₂)
  · exact does_answer (by simp)

/-- `DFU_EndDfuCmdHandler`. -/
theorem dfuEndDfuCmdHandler_does (d : Dev) {pkt : Mem} (now : UInt32) (runs : d.halted = false)
    (hcmd : u16At (adv pkt 1) = hciOpcodeVsEndDfu) :
    d.Does (.hci pkt now) (d.dfuEndDfuCmdHandler (adv pkt 4) now) := by
  unfold dfuEndDfuCmdHandler
  simp only
  split_ifs with h₁ h₂ h₃ h₄
  · -- not all of the image has come
    refine does_quiet [.cmdCmpl hciOpcodeVsEndDfu [DfuErr.fwIncomplete.code]] rfl rfl rfl
      ⟨rfl, rfl, rfl⟩ ⟨rfl, rfl, rfl⟩ (fun h => by cases h) (by decide) (by decide)
      fun _ => by decide
  · -- the check fails
    refine does_quiet [.cmdCmpl hciOpcodeVsEndDfu [DfuErr.fwCrc.code]] rfl rfl rfl
      ⟨rfl, rfl, rfl⟩ ⟨rfl, rfl, rfl⟩ (fun h => by cases h) (by decide) (by decide)
      fun _ => by decide
  · exact ⟨_, [endOk], ⟨rfl, by simp [switchMarks, flashWritePage, writePageOps, setStatus,
      hciSendCmdCmplStatusEvt, hciSendCmdCmplEvt, resetTimer, DfuCb.running], rfl⟩,
      .switch ⟨runs, ⟨hcmd, h₁⟩, not_not.mp h₂, not_not.mp h₃⟩ ⟨rfl, rfl, rfl⟩ ⟨rfl, rfl, rfl⟩ rfl⟩
  · -- the update is given up: answered with success, but not as the end of an image
    refine does_quiet [endOk] rfl rfl rfl ⟨rfl, rfl, rfl⟩ ⟨rfl, rfl, rfl⟩
      (fun h => by cases h) (by decide) (by decide) fun hend => ?_
    exact absurd hend.2 h₁
  · refine does_quiet [.cmdCmpl hciOpcodeVsEndDfu [DfuErr.invalidParam.code]] rfl rfl rfl
      ⟨rfl, rfl, rfl⟩ ⟨rfl, rfl, rfl⟩ id (by decide) (by decide) fun _ => by decide

/-- An answer of `HCI_Fw_Data` with an error. -/
theorem does_dataErr {d d' : Dev} {i : DfuInput} {opcode : ℕ} (err : DfuErr) (herr : err ≠ .success)
    (hflash : d'.flash = d.flash) (hops : d'.ops = d.ops)
    (hevts : d'.evts = d.evts ++ [.cmdStatus opcode err.code]) (slots : d.cb.SameSlots d'.cb)
    (image : d.cb.SameImage d'.cb) (status : d'.cb.status = d.cb.status) : d.Does i d' := by
  refine does_quiet _ hflash hops hevts slots image (fun h => status ▸ h) ?_ ?_ fun _ => ?_
  · simp [startOk]
  · cases err <;> simp_all [dataOk, DfuErr.code]
  · simp [endOk]

/-- A payload that is taken; the timer and the resend counter do not matter to it. -/
theorem takePayload_does (d : Dev) (i : DfuInput) (timer : UInt32) (resendCnt : ℕ)
    (takes : d.TakesPayload i) :
    d.Does i ({ d with cb := { d.cb with timer := timer, resendCnt := resendCnt } }.takePayload
      i.param i.dataLen) := by
  have hw : d.flash.replay (writePageOps i.dataLen (d.cb.nextFwAddrStart + d.cb.fwOffset)
      (bytes (d.maskedParam i.param i.dataLen) i.dataLen)) =
      d.flash.program (d.cb.nextFwAddrStart + d.cb.fwOffset)
        (bytes (d.maskedParam i.param i.dataLen) i.dataLen) :=
    replay_writePageOps (by rw [length_bytes])
  refine ⟨writePageOps i.dataLen (d.cb.nextFwAddrStart + d.cb.fwOffset)
    (bytes (d.maskedParam i.param i.dataLen) i.dataLen), [dataOk], ⟨?_, ?_, rfl⟩,
    .data takes ⟨rfl, rfl, rfl⟩ rfl rfl ?_⟩
  · simp only [takePayload, hciSendCmdStatusEvt, flashWritePage, flashOps, length_bytes]
    rfl
  · simp only [takePayload, hciSendCmdStatusEvt, flashWritePage, flashOps, length_bytes]
    rfl
  · rw [← hw]
    simp only [takePayload, hciSendCmdStatusEvt, flashWritePage, flashOps, length_bytes]
    rfl

/-- `DFU_FwDataCmdHandler`. -/
theorem dfuFwDataCmdHandler_does (d : Dev) {pkt : Mem} (now : UInt32) (runs : d.halted = false)
    (hcmd : (DfuInput.hci pkt now).IsCmd hciOpcodeVsFwData) :
    d.Does (.hci pkt now) (d.dfuFwDataCmdHandler (adv pkt 4) (pkt 3).toNat now) := by
  unfold dfuFwDataCmdHandler
  simp only
  split_ifs with h₁ h₂ h₃ h₄ h₅
  · exact does_quiet [] rfl rfl (by simp) ⟨rfl, rfl, rfl⟩ ⟨rfl, rfl, rfl⟩ id (by simp)
      (by simp) fun _ => by simp
  · exact does_dataErr .dfuDisabled (by simp) rfl rfl rfl ⟨rfl, rfl, rfl⟩ ⟨rfl, rfl, rfl⟩ rfl
  · exact does_dataErr .dataLength (by simp) rfl rfl rfl ⟨rfl, rfl, rfl⟩ ⟨rfl, rfl, rfl⟩ rfl
  · exact does_dataErr .fwChecksum (by simp) rfl rfl rfl ⟨rfl, rfl, rfl⟩ ⟨rfl, rfl, rfl⟩ rfl
  · exact takePayload_does d (.hci pkt now) (now ||| 1) 0
      ⟨runs, hcmd, not_le.mp h₁, not_not.mp h₂, not_lt.mp h₃, not_not.mp h₄, h₅⟩
  · exact does_dataErr .fwIncomplete (by simp) rfl rfl rfl ⟨rfl, rfl, rfl⟩ ⟨rfl, rfl, rfl⟩ rfl

/-- `DFU_Handler`. -/
theorem dfuHandler_does (d : Dev) (pkt : Mem) (now : UInt32) (runs : d.halted = false) :
    d.Does (.hci pkt now) (d.dfuHandler pkt now) := by
  have stack : d.Does (.hci pkt now) d :=
    does_quiet [] rfl rfl (by simp) ⟨rfl, rfl, rfl⟩ ⟨rfl, rfl, rfl⟩ id (by simp) (by simp)
      fun _ => by simp
  unfold dfuHandler
  simp only
  split_ifs
  · unfold dfuCmdHandler
    simp only
    split_ifs with h₁ h₂ h₃
    · exact dfuStartDfuCmdHandler_does d now h₁
    · exact dfuFwDataCmdHandler_does d now runs h₂
    · exact dfuEndDfuCmdHandler_does d now runs h₃
    · exact does_dataErr .cmdDisallowed (by simp) rfl rfl rfl ⟨rfl, rfl, rfl⟩
        ⟨rfl, rfl, rfl⟩ rfl
  · exact stack
  · exact stack

/-- A round that gives the update up erases the area, unless it looks blank, and resets
the control block. -/
theorem dfuTaskStart_of_resets {d : Dev} {idle : Bool} {now : UInt32}
    (h : d.Resets (.task idle now)) :
    d.dfuTaskStart idle now = { d.dfuEraseNewFwArea with cb := d.dfuReset.cb } := by
  obtain ⟨-, hend, hres⟩ := h
  unfold dfuTaskStart
  rw [if_neg hend]
  by_cases hterm : d.cb.status = .term ∧ idle
  · -- the reset turns the timer off, so the timeout is not looked at again
    have he : (d.setStatus .none).dfuReset.dfuEraseNewFwArea =
        { d.dfuEraseNewFwArea with cb := d.dfuReset.cb } :=
      dfuEraseNewFwArea_withCb (d := d) (c := d.dfuReset.cb) ⟨rfl, rfl, rfl⟩
    have htimer :
        ({ d.dfuEraseNewFwArea with cb := d.dfuReset.cb } : Dev).dfuTimedOut now = false := by
      simp [dfuTimedOut, dfuReset]
    simp only [if_pos hterm, he, htimer]
    rfl
  · simp only [if_neg hterm, hres.resolve_left hterm, if_true]
    simp [dfuReset, dfuEraseNewFwArea_cb]

/-- `DFU_TaskStart`. -/
theorem dfuTaskStart_does (d : Dev) (idle : Bool) (now : UInt32) (hrun : d.halted = false) :
    d.Does (.task idle now) (d.dfuTaskStart idle now) := by
  by_cases hres : d.Resets (.task idle now)
  · rw [dfuTaskStart_of_resets hres]
    exact does_erase hres
  unfold dfuTaskStart
  by_cases hend : d.cb.status = .ended ∧ idle
  · rw [if_pos hend]
    exact does_quiet [] rfl rfl (by simp [setStatus]) ⟨rfl, rfl, rfl⟩ ⟨rfl, rfl, rfl⟩
      (fun h => by cases h) (by simp) (by simp) fun _ => by simp
  · have hterm : ¬(d.cb.status = .term ∧ idle) := fun h => hres ⟨hrun, hend, Or.inl h⟩
    have htime : ¬(d.dfuTimedOut now = true) := fun h => hres ⟨hrun, hend, Or.inr h⟩
    simp only [if_neg hend, if_neg hterm, if_neg htime]
    exact does_quiet [] rfl rfl (by simp) ⟨rfl, rfl, rfl⟩ ⟨rfl, rfl, rfl⟩ id (by simp)
      (by simp) fun _ => by simp

/-- **Every input does one of the seven things.** -/
theorem step_does (d : Dev) (i : DfuInput) : d.Does i (d.step i) := by
  unfold step
  split
  · exact does_quiet [] rfl rfl (by simp) ⟨rfl, rfl, rfl⟩ ⟨rfl, rfl, rfl⟩ id (by simp)
      (by simp) fun _ => by simp
  · cases i with
    | hci pkt now => exact dfuHandler_does d pkt now (Bool.eq_false_iff.mpr ‹_›)
    | task idle now => exact dfuTaskStart_does d idle now (Bool.eq_false_iff.mpr ‹_›)

/-- What a round that gives the update up leaves. -/
theorem step_of_resets {d : Dev} {i : DfuInput} (h : d.Resets i) :
    d.step i = { d.dfuEraseNewFwArea with cb := d.dfuReset.cb } := by
  cases i with
  | hci _ _ => exact absurd h id
  | task idle now =>
    have hrun : ¬d.halted = true := by simp [h.1]
    rw [step, if_neg hrun]
    exact dfuTaskStart_of_resets h

/-- A payload that finds what it needs is taken. -/
theorem step_of_takesPayload {d : Dev} {i : DfuInput} (h : d.TakesPayload i) :
    ∃ timer, d.step i = { d with cb := { d.cb with timer := timer, resendCnt := 0 } }.takePayload
      i.param i.dataLen := by
  cases i with
  | task _ _ => exact absurd h.hcmd id
  | hci pkt now =>
    refine ⟨now ||| 1, ?_⟩
    have hop : u16At (adv pkt 1) = hciOpcodeVsFwData := h.hcmd
    have hrun : ¬d.halted = true := by simp [h.runs]
    have hlen : ¬dfuMaxPayload < subU32 (pkt 3).toNat dfuChecksumLen := not_lt.mpr h.len
    have hcheck : dfuCrc32Calc dfuCrcInitValue (bytes (adv pkt 4) (pkt 3).toNat) = 0#32 := h.check
    simp only [step, if_neg hrun, dfuHandler, hop, dfuCmdHandler]
    rw [if_pos (Or.inl (by decide)), if_pos (Or.inl (by decide)), if_neg (by decide),
      if_pos trivial, dfuFwDataCmdHandler]
    simp only [resetTimer, if_neg (not_le.mpr h.resend), h.started, ne_eq, not_true_eq_false,
      if_false, if_neg hlen, hcheck, if_pos h.room]
    rfl

/-- The end of an image that finds what it needs switches the boot marks. -/
theorem step_of_switchesMarks {d : Dev} {i : DfuInput} (h : d.SwitchesMarks i) :
    ∃ timer, d.step i = { d with cb := { d.cb with timer := timer } }.switchMarks := by
  cases i with
  | task _ _ => exact absurd h.hcmd id
  | hci pkt now =>
    refine ⟨now ||| 1, ?_⟩
    obtain ⟨hop, hmode⟩ := h.hcmd
    have hrun : ¬d.halted = true := by simp [h.runs]
    have hmode' : adv pkt 4 0 = 0x00 := hmode
    simp only [step, if_neg hrun, dfuHandler, hop, dfuCmdHandler]
    rw [if_pos (Or.inl (by decide)), if_pos (Or.inl (by decide)), if_neg (by decide),
      if_neg (by decide), if_pos trivial, dfuEndDfuCmdHandler]
    simp only [resetTimer, hmode', if_true, h.whole, h.crc, ne_eq, not_true_eq_false, if_false]

/-! ### Sessions and runs -/

/-- The events an input is answered with. -/
def answers (d : Dev) (i : DfuInput) : List HciEvt := (d.step i).evts.drop d.evts.length

/-- The flash operations an input performs. -/
def newOps (d : Dev) (i : DfuInput) : List FlashOp := (d.step i).ops.drop d.ops.length

/-- What an input does, with its answers and operations. -/
theorem step_effect (d : Dev) (i : DfuInput) :
    d.After (d.newOps i) (d.answers i) (d.step i) ∧
      d.Effect i (d.newOps i) (d.answers i) (d.step i).cb := by
  obtain ⟨ops, evts, after, effect⟩ := d.step_does i
  have ho : d.newOps i = ops := by rw [newOps, after.ops, List.drop_left]
  have he : d.answers i = evts := by rw [answers, after.evts, List.drop_left]
  rw [ho, he]
  exact ⟨after, effect⟩

/-- A payload is answered with success exactly when it finds what it needs. -/
theorem answers_dataOk_iff {d : Dev} {i : DfuInput} :
    d.answers i = [dataOk] ↔ d.TakesPayload i := by
  constructor
  · intro hok
    obtain ⟨-, effect⟩ := d.step_effect i
    generalize d.newOps i = ops at effect
    rw [hok] at effect
    cases effect with
    | quiet _ _ _ _ hdata => simp at hdata
    | data takes => exact takes
  · intro h
    obtain ⟨timer, hstep⟩ := step_of_takesPayload h
    rw [answers, hstep]
    exact List.drop_left

/-- The end of an image is answered with success exactly when it finds what it needs. -/
theorem answers_endOk_iff {d : Dev} {i : DfuInput} :
    i.IsEndFwUpd ∧ endOk ∈ d.answers i ↔ d.SwitchesMarks i := by
  constructor
  · rintro ⟨hend, hok⟩
    obtain ⟨-, effect⟩ := d.step_effect i
    generalize d.newOps i = ops at effect
    generalize d.answers i = evts at effect hok
    cases effect with
    | quiet _ _ _ _ _ h => exact absurd hok (h hend)
    | switch switches => exact switches
    | tooLarge => exact absurd hok (by decide)
    | start => exact absurd hok (by decide)
    | data => exact absurd hok (by decide)
    | blank => exact absurd hok (by simp)
    | erase => exact absurd hok (by simp)
  · intro h
    obtain ⟨timer, hstep⟩ := step_of_switchesMarks h
    refine ⟨h.hcmd, ?_⟩
    have hans : d.answers i = [endOk] := by
      rw [answers, hstep]
      exact List.drop_left
    simp [hans]

/-- What has happened since `DFU_Init`, from the outside: whether an update was started,
and the payloads accepted since the last one was. -/
structure Session where
  /-- A `HCI_Start_Dfu` was accepted. -/
  started : Bool
  /-- The payloads accepted since. -/
  accepted : List UInt8

/-- The session after an input to device `d`. -/
def Session.next (s : Session) (d : Dev) (i : DfuInput) : Session :=
  if d.answers i = [startOk] then ⟨true, []⟩
  else if d.answers i = [dataOk] then { s with accepted := s.accepted ++ i.payload }
  else s

/-- An input to a device and its session. -/
def stepS (p : Dev × Session) (i : DfuInput) : Dev × Session := (p.1.step i, p.2.next p.1 i)

/-- A device after `DFU_Init`, and its session. -/
def initS (off : ℕ) (flash : Flash) : Dev × Session := (dfuInit off flash, ⟨false, []⟩)

/-- A run from `DFU_Init`: the device and its session. -/
def runS (off : ℕ) (flash : Flash) (is : List DfuInput) : Dev × Session :=
  is.foldl stepS (initS off flash)

/-- The device of a run with its session is that of the run. -/
theorem runS_fst (off : ℕ) (flash : Flash) (is : List DfuInput) :
    (runS off flash is).1 = run off flash is := by
  induction is using List.reverseRecOn with
  | nil => rfl
  | append_singleton is i ih =>
    simp only [runS, run, List.foldl_append, List.foldl_cons, List.foldl_nil, stepS] at ih ⊢
    rw [ih]

/-- What a run has done to the flash is its operations, in order. -/
theorem run_replay (off : ℕ) (flash : Flash) (is : List DfuInput) :
    (run off flash is).flash = flash.replay (run off flash is).ops := by
  induction is using List.reverseRecOn with
  | nil =>
    simp only [run, List.foldl_nil, dfuInit, dfuEraseNewFwArea]
    split
    · rfl
    · rw [eraseSectors_eq]
      rfl
  | append_singleton is i ih =>
    obtain ⟨after, -⟩ := (run off flash is).step_effect i
    rw [run, List.foldl_append, List.foldl_cons, List.foldl_nil]
    rw [run] at ih after
    rw [after.flash, after.ops, Flash.replay_append, ← ih]

end Dev

/-! ### The slots -/

/-- Where the area for the new firmware starts: the library's `ota_program_offset`. It is
the start of a sector, and the running image is elsewhere: in the slot at
`DFU_NEW_FW_ADDR_BASE` when the area is at `0`, at `0` when it is at
`DFU_NEW_FW_ADDR_BASE` or above. -/
structure SlotLayout where
  /-- `ota_program_offset`. -/
  next : ℕ
  /-- It is the start of a sector. -/
  aligned : next % 0x1000 = 0
  /-- The slots do not meet. -/
  apart : next = 0 ∨ dfuNewFwAddrBase ≤ next

namespace SlotLayout

variable (L : SlotLayout)

/-- The start of the running image. -/
def running : ℕ := if L.next = 0 then dfuNewFwAddrBase else 0

/-- The slots do not meet. -/
theorem running_apart {i j : ℕ} (hi : i < dfuNewFwAddrBase) (hj : j < dfuNewFwAddrBase) :
    L.running + i ≠ L.next + j := by
  have := L.apart
  unfold running
  unfold dfuNewFwAddrBase at *
  split <;> omega

/-- A control block that has the slots of the layout. -/
structure Of (c : DfuCb) : Prop where
  /-- The running image's slot when the area is at `0`. -/
  newFwAddrStart : c.newFwAddrStart = dfuNewFwAddrBase
  /-- The size of the area. -/
  maxFwSize : c.maxFwSize = dfuNewFwMaxSize
  /-- The area. -/
  nextFwAddrStart : c.nextFwAddrStart = L.next

variable {L}

theorem Of.running_eq {c : DfuCb} (h : L.Of c) : c.running = L.running := by
  rw [DfuCb.running, SlotLayout.running, h.nextFwAddrStart, h.newFwAddrStart]

theorem Of.sameSlots {c c' : DfuCb} (h : L.Of c) (hs : c.SameSlots c') : L.Of c' :=
  ⟨hs.newFwAddrStart.trans h.newFwAddrStart, hs.maxFwSize.trans h.maxFwSize,
    hs.nextFwAddrStart.trans h.nextFwAddrStart⟩

end SlotLayout

namespace Dev

theorem Effect.sameSlots {d : Dev} {i : DfuInput} {ops : List FlashOp} {evts : List HciEvt}
    {c : DfuCb} (h : d.Effect i ops evts c) : d.cb.SameSlots c := by
  cases h <;> assumption

theorem dfuInit_cb (off : ℕ) (flash : Flash) : (dfuInit off flash).cb = dfuInitCb off := by
  simp [dfuInit, dfuEraseNewFwArea_cb]

/-- An area that looks blank is left alone by `DFU_Init`. -/
theorem dfuInit_flash_of_blank {off : ℕ} {flash : Flash}
    (h : sampledBlank ⟨dfuInitCb off, flash, 0, [], [], false⟩ = true) :
    (dfuInit off flash).flash = flash := by
  simp [dfuInit, dfuEraseNewFwArea, h]

/-- An area that does not look blank is erased by `DFU_Init`. -/
theorem dfuInit_flash_of_not_blank {off : ℕ} {flash : Flash}
    (h : sampledBlank ⟨dfuInitCb off, flash, 0, [], [], false⟩ = false) :
    (dfuInit off flash).flash =
      flash.replay (eraseSectorsOps ((dfuNewFwMaxSize + 0xFFF) / 0x1000) off) := by
  simp only [dfuInit, dfuEraseNewFwArea, h, Bool.false_eq_true, if_false, eraseSectors_eq,
    flashOps_flash]
  rfl

/-- The slots never change. -/
theorem run_slots (L : SlotLayout) (flash : Flash) (is : List DfuInput) :
    L.Of (run L.next flash is).cb := by
  have htrue : Run.Along step (fun _ _ => True) (dfuInit L.next flash) is :=
    Run.along_iff.mpr fun _ _ _ _ => trivial
  refine htrue.induction (P := fun _ d => L.Of d.cb) ?_ fun is i hL _ => ?_
  · rw [dfuInit_cb]
    exact ⟨rfl, rfl, rfl⟩
  · exact hL.sameSlots (step_effect _ i).2.sameSlots

/-! ### What a payload leaves -/

section Payload

variable {d : Dev} {p : Mem} {n : ℕ}

/-- The bytes written: those of the payload, but for the boot mark of a first payload. -/
theorem maskedParam_apply {j : ℕ} (hj : j < n) :
    d.maskedParam p n j = if d.cb.fwOffset = 0 ∧ j = 8 then 0xff else p j := by
  unfold maskedParam
  split_ifs with h₁ h₂ h₂
  · simp [h₂.2]
  · exact Function.update_of_ne (fun h => h₂ ⟨h₁.1, h⟩) _ _
  · exact absurd ⟨h₂.1, by omega⟩ h₁
  · rfl

/-- The bytes checked: those read back, but for the boot mark of a first payload. -/
theorem checkedBuf_apply {f : Flash} {j : ℕ} (hj : j < n) :
    d.checkedBuf p n f j =
      if d.cb.fwOffset = 0 ∧ j = 8 then p 8 else f (d.cb.nextFwAddrStart + d.cb.fwOffset + j) := by
  have hbuf : buffer (f.read (d.cb.nextFwAddrStart + d.cb.fwOffset) n) (fun _ => 0) j =
      f (d.cb.nextFwAddrStart + d.cb.fwOffset + j) := by
    rw [buffer_apply, Flash.getD_read f hj]
  unfold checkedBuf bootFlag
  split_ifs with h₁ h₂ h₂ h₂ h₂
  · simp [h₂.2]
  · rw [Function.update_of_ne (fun h => h₂ ⟨h₁, h⟩), hbuf]
  · exact absurd ⟨h₁, by omega⟩ ‹¬(d.cb.fwOffset = 0 ∧ 8 ≤ n)›
  · rw [Function.update_of_ne (fun h => h₂ ⟨h₁, h⟩), hbuf]
  · exact absurd h₂.1 h₁
  · exact hbuf

/-- What taking a payload leaves in the flash: its bytes, where the flash could take them,
but for the boot mark of a first payload. -/
theorem payload_program (d : Dev) (i : DfuInput) (f : Flash) (k : ℕ) :
    f.program (d.cb.nextFwAddrStart + d.cb.fwOffset)
    (bytes (d.maskedParam i.param i.dataLen) i.dataLen)
        (d.cb.nextFwAddrStart + k) =
      if d.cb.fwOffset ≤ k ∧ k < d.cb.fwOffset + i.dataLen ∧ ¬(d.cb.fwOffset = 0 ∧ k = 8) then
        f (d.cb.nextFwAddrStart + k) &&& i.payload.getD (k - d.cb.fwOffset) 0xff
      else f (d.cb.nextFwAddrStart + k) := by
  by_cases hin : d.cb.fwOffset ≤ k ∧ k < d.cb.fwOffset + i.dataLen
  · obtain ⟨j, rfl⟩ := Nat.exists_eq_add_of_le hin.1
    have hj : j < i.dataLen := by omega
    rw [← Nat.add_assoc, Flash.program_get, getD_bytes _ hj, maskedParam_apply hj,
      Nat.add_sub_cancel_left, DfuInput.payload, getD_bytes _ hj]
    by_cases hmark : d.cb.fwOffset = 0 ∧ j = 8
    · rw [if_pos hmark, if_neg (by omega), Flash.and_ff]
    · rw [if_neg hmark, if_pos (by omega)]
  · rw [Flash.program_other _ (by rw [length_bytes]; omega), if_neg (by omega)]

end Payload

/-! ### What switching the boot marks leaves -/

section Switch

variable {L : SlotLayout} {d : Dev}

/-- The writes of the switch. -/
def switchOps (L : SlotLayout) : List FlashOp :=
  [.write (L.next + 0x8) [0x4b], .write (L.running + 0x8) [0x00]]

/-- In the slot of the new firmware only the boot mark changes. -/
theorem switch_next (f : Flash) {k : ℕ} (hk : k < dfuNewFwAddrBase) :
    f.replay (switchOps L) (L.next + k) = if k = 8 then f (L.next + k) &&& 0x4b
      else f (L.next + k) := by
  have hrun : L.running + 8 ≠ L.next + k := L.running_apart (by decide) hk
  simp only [switchOps, Flash.replay_cons, Flash.replay_nil, FlashOp.apply]
  rw [Flash.program_other _ (by simp only [List.length_singleton]; omega)]
  split_ifs with h
  · rw [h, Flash.program_singleton]
  · exact Flash.program_other _ (by simp only [List.length_singleton]; omega)

/-- The boot mark of the running image is cleared. -/
theorem switch_running (f : Flash) : f.replay (switchOps L) (L.running + 8) = 0x00 := by
  simp only [switchOps, Flash.replay_cons, Flash.replay_nil, FlashOp.apply]
  rw [Flash.program_singleton, UInt8.and_zero]

/-- Switching the boot marks of a device with the slots of `L`. -/
theorem switchOps_eq (hL : L.Of d.cb) :
    [FlashOp.write (d.cb.nextFwAddrStart + 0x8) [0x4b], .write (d.cb.running + 0x8) [0x00]] =
      switchOps L := by
  rw [hL.nextFwAddrStart, hL.running_eq]
  rfl

end Switch

end Dev

end TcBle.HciTransport
