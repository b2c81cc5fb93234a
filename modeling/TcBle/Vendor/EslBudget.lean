import TcBle.Vendor.EslControlPoint

/-!
# The responses to a packet

A packet may have more commands than there is room for responses. The first loop of
`app_esl_handleControlPointCmds` counts the commands that are for this label alone, and every response
has to leave two bytes for each of those that are still to come; if it does not, it is replaced by
an error of two bytes.

## What is proved

* `command_ok_iff` — a broadcast command gets no response and nothing is written past `rsp`, exactly
  if the command is none of three kinds.
* `Budget.round` — what has been written and two bytes for each response still to come fit.
* `responses_within_budget_iff` — the responses to a packet, as long as it has none of these
  commands.
-/

namespace TcBle.Vendor

open TcBle.Foundation.Run TcBle.HciTransport

/-! ### One command -/

/-- A broadcast command has no response, and nothing is written past `rsp`. -/
structure EslAnswer.Ok (a : EslAnswer) (eslId : UInt8) : Prop where
  /-- The response. -/
  silent : eslId = eslIdBroadcast → a.rspLen = 0
  /-- What is written. -/
  written : a.written.length ≤ cmdRspMaxLength

/-- The command is one that is answered as it should not be: a broadcast to leave the access point,
a vendor-specific read that overflows, or a broadcast for an LED at an implausible time, unless
it concerns a pending one. -/
def EslLabel.Misanswers (s : EslLabel) (c : EslRound) : Prop :=
  match EslOpcode.ofByte c.opcode with
  | .vendor => c.vendorCommand.Overflows
  | .unassociateFromAp => c.eslId = eslIdBroadcast
  | .ledTimedControl =>
    c.eslId = eslIdBroadcast ∧ s.currentTime.checkTimedCommand c.ledTime = false ∧
      ((s.ledControlData c.ledId.toNat).pendingUpdate = true →
        c.ledTime ≠ 0 ∧ c.ledTime = (s.ledControlData c.ledId.toNat).scheduledCommandTime)
  | _ => False

theorem responseParameters_le (opcode : UInt8) : responseParameters opcode ≤ 16 := by
  have h := opcode.toNat_lt
  have hand : (opcode &&& 0xF0).toNat ≤ opcode.toNat := by
    rw [UInt8.toNat_and]
    exact Nat.and_le_left
  rw [responseParameters, UInt8.toNat_shiftRight, show (4 : UInt8).toNat % 8 = 4 from rfl,
    Nat.shiftRight_eq_div_pow]
  omega

namespace EslTlv

variable (lib : EslTlv)

theorem responseSize_le (opcode : UInt8) : lib.responseSize opcode ≤ cmdRspMaxLength := by
  have h := responseParameters_le opcode
  rw [lib.responseSize_eq, cmdRspMaxLength]
  omega

@[simp] theorem responseSize_error : lib.responseSize 0x00 = 2 := lib.responseSize_eq 0x00

@[simp] theorem responseSize_ledState : lib.responseSize 0x01 = 2 := lib.responseSize_eq 0x01

@[simp] theorem responseSize_displayState : lib.responseSize 0x11 = 3 := lib.responseSize_eq 0x11

/-- Every response has an opcode and a parameter. -/
theorem responseSize_ne_zero (opcode : UInt8) : lib.responseSize opcode ≠ 0 := by
  rw [lib.responseSize_eq]
  omega

end EslTlv

namespace EslLabel

variable (cfg : EslConfig) (lib : EslTlv) (s : EslLabel) (c : EslRound)

theorem ok_silent (eslId : UInt8) : s.silent.Ok eslId := ⟨fun _ => rfl, Nat.zero_le _⟩

/-- What is answered to addressed commands only. -/
theorem ok_answer (eslId : UInt8) {written : List UInt8} (rspLen : ℕ)
    (h : written.length ≤ cmdRspMaxLength) : (s.answer eslId written rspLen).Ok eslId := by
  rw [answer]
  split_ifs with haddr
  · exact ⟨fun hcast => absurd hcast haddr, h⟩
  · exact s.ok_silent eslId

theorem ok_ping : (s.ping c).Ok c.eslId := by
  rw [ping]
  split_ifs with haddr
  · exact ⟨fun hcast => absurd hcast haddr, by simp [basicStateRsp, cmdRspMaxLength]⟩
  · exact s.ok_silent _

theorem ok_unassociate_iff : (s.unassociate c).Ok c.eslId ↔ c.eslId ≠ eslIdBroadcast := by
  constructor
  · intro h hcast
    exact absurd (h.silent hcast) (Nat.succ_ne_zero 1)
  · intro haddr
    exact ⟨fun hcast => absurd hcast haddr, by simp [unassociate, basicStateRsp, cmdRspMaxLength]⟩

/-- The length of a reading is at most what is asked for. -/
theorem sensorRead_length_le (sensorId length : UInt8) (val : Mem) :
    (s.sensorRead sensorId length val).2.1 ≤ length := by
  rw [sensorRead]
  split_ifs with _ hfour
  · exact UInt8.le_refl length
  · exact UInt8.not_lt.mp hfour
  · have hlt := length.toNat_lt
    have hmod : (s.random 0).toNat % (length.toNat + 1) < length.toNat + 1 :=
      Nat.mod_lt _ (Nat.succ_pos _)
    show UInt8.ofNat ((s.random 0).toNat % (length.toNat + 1)) ≤ length
    rw [UInt8.le_iff_toNat_le, UInt8.toNat_ofNat']
    omega
  · exact UInt8.le_refl _

theorem ok_readSensorData : (s.readSensorData lib c).Ok c.eslId := by
  rw [readSensorData]
  split_ifs with haddr
  · refine ⟨fun hcast => absurd hcast haddr, ?_⟩
    have hlength := UInt8.le_iff_toNat_le.mp (s.sensorRead_length_le c.sensorId 15 c.val)
    rw [show (15 : UInt8).toNat = 15 from rfl] at hlength
    simp only [List.length_cons, length_bytes, cmdRspMaxLength]
    omega
  · exact s.ok_silent _

theorem ok_displayImage : (s.displayImage cfg lib c).Ok c.eslId := by
  rw [displayImage]
  split_ifs
  · exact ok_answer _ _ _ (by simp [errorRsp, cmdRspMaxLength])
  · exact ok_answer _ _ _ (by simp [displayStateRsp, cmdRspMaxLength])

theorem ok_displayTimedImage : (s.displayTimedImage cfg lib c).Ok c.eslId := by
  rw [displayTimedImage]
  dsimp only
  split_ifs <;> exact ok_answer _ _ _ (by simp [errorRsp, displayStateRsp, cmdRspMaxLength])

theorem ok_ledControl : (s.ledControl cfg c).Ok c.eslId :=
  ok_answer _ _ _ (by simp [ledStateRsp, cmdRspMaxLength])

/-- The LED command at an implausible time is answered to a broadcast, too. -/
theorem ok_ledTimedControl_iff : (s.ledTimedControl lib c).Ok c.eslId ↔
    ¬ (c.eslId = eslIdBroadcast ∧ s.currentTime.checkTimedCommand c.ledTime = false ∧
      ((s.ledControlData c.ledId.toNat).pendingUpdate = true →
        c.ledTime ≠ 0 ∧ c.ledTime = (s.ledControlData c.ledId.toNat).scheduledCommandTime)) := by
  have hled : (ledStateRsp c.ledId).length ≤ cmdRspMaxLength := by
    simp [ledStateRsp, cmdRspMaxLength]
  rw [ledTimedControl]
  simp only [Bool.and_eq_true, decide_eq_true_eq, Bool.not_eq_true']
  split_ifs with hdelete hfull htime
  · refine iff_of_true (ok_answer _ _ _ hled) ?_
    rintro ⟨-, -, h⟩
    exact (h hdelete.1).1 hdelete.2
  · refine iff_of_true (ok_answer _ _ _ (by simp [errorRsp, cmdRspMaxLength])) ?_
    rintro ⟨-, -, h⟩
    exact hfull.2 (h hfull.1).2
  · constructor
    · rintro h ⟨hcast, -, -⟩
      exact lib.responseSize_ne_zero _ (h.silent hcast)
    · intro h
      refine ⟨fun hcast => absurd ⟨hcast, htime, fun hpending => ?_⟩ h,
        by simp [errorRsp, cmdRspMaxLength]⟩
      exact ⟨fun hzero => hdelete ⟨hpending, hzero⟩,
        by_contra fun hne => hfull ⟨hpending, hne⟩⟩
  · refine iff_of_true (ok_answer _ _ _ hled) ?_
    rintro ⟨-, h, -⟩
    exact htime h

end EslLabel

/-! ### The commands -/

namespace EslLabel

variable (cfg : EslConfig) (lib : EslTlv) (s : EslLabel) (c : EslRound)

theorem ok_vendorSpecific_iff :
    (s.vendorSpecific lib c).Ok c.eslId ↔ ¬ c.vendorCommand.Overflows := by
  have hsilent : c.eslId = eslIdBroadcast → (s.vendorSpecific lib c).rspLen = 0 := by
    intro hcast
    simp [vendorSpecific, hcast]
  rw [← response_fits_iff s.vendor c.vendorCommand]
  constructor
  · intro h response hresponse
    have hwritten := h.written
    rwa [vendorSpecific, Option.mem_def.mp hresponse] at hwritten
  · intro h
    refine ⟨hsilent, ?_⟩
    show ((handleVendorSpecific s.vendor c.vendorCommand).2.getD []).length ≤ _
    cases hresponse : (handleVendorSpecific s.vendor c.vendorCommand).2 with
    | none => exact Nat.zero_le _
    | some response => exact h response hresponse

/-- **A command is answered as it should**, unless it is one of the three kinds. -/
theorem command_ok_iff : (s.command cfg lib c).Ok c.eslId ↔ ¬ s.Misanswers c := by
  rw [command, Misanswers]
  cases EslOpcode.ofByte c.opcode with
  | ping => exact iff_of_true (s.ok_ping c) not_false
  | vendor => exact s.ok_vendorSpecific_iff lib c
  | serviceReset => exact iff_of_true (s.ok_ping c) not_false
  | unassociateFromAp => exact s.ok_unassociate_iff c
  | factoryReset => exact iff_of_true (ok_silent _ _) not_false
  | updateComplete => exact iff_of_true (ok_silent _ _) not_false
  | readSensorData => exact iff_of_true (s.ok_readSensorData lib c) not_false
  | displayImage => exact iff_of_true (s.ok_displayImage cfg lib c) not_false
  | displayTimedImage => exact iff_of_true (s.ok_displayTimedImage cfg lib c) not_false
  | ledControl => exact iff_of_true (s.ok_ledControl cfg c) not_false
  | ledTimedControl => exact s.ok_ledTimedControl_iff lib c
  | other => exact iff_of_true (ok_silent _ _) not_false

theorem rspLen_answer_le (eslId : UInt8) (written : List UInt8) {rspLen : ℕ}
    (h : rspLen ≤ cmdRspMaxLength) : (s.answer eslId written rspLen).rspLen ≤ cmdRspMaxLength := by
  rw [answer]
  split_ifs
  · exact h
  · exact Nat.zero_le _

theorem rspLen_ping_le : (s.ping c).rspLen ≤ cmdRspMaxLength := by
  rw [ping]
  split_ifs
  · exact Nat.le_add_right 2 15
  · exact Nat.zero_le _

/-- No response is longer than `rsp`. -/
theorem command_rspLen_le : (s.command cfg lib c).rspLen ≤ cmdRspMaxLength := by
  have hsize := lib.responseSize_le
  rw [command]
  cases EslOpcode.ofByte c.opcode with
  | ping => exact s.rspLen_ping_le c
  | vendor =>
    show (if c.eslId ≠ eslIdBroadcast then lib.responseSize _ else 0) ≤ _
    split_ifs
    · exact hsize _
    · exact Nat.zero_le _
  | serviceReset => exact s.rspLen_ping_le c
  | unassociateFromAp => exact Nat.le_add_right 2 15
  | factoryReset => exact Nat.zero_le _
  | updateComplete => exact Nat.zero_le _
  | readSensorData =>
    show (s.readSensorData lib c).rspLen ≤ _
    rw [readSensorData]
    split_ifs
    · exact hsize _
    · exact Nat.zero_le _
  | displayImage =>
    show (s.displayImage cfg lib c).rspLen ≤ _
    rw [displayImage]
    split_ifs <;> exact rspLen_answer_le _ _ _ (hsize _)
  | displayTimedImage =>
    show (s.displayTimedImage cfg lib c).rspLen ≤ _
    rw [displayTimedImage]
    dsimp only
    split_ifs <;> exact rspLen_answer_le _ _ _ (hsize _)
  | ledControl => exact rspLen_answer_le _ _ _ (Nat.le_add_right 2 15)
  | ledTimedControl =>
    show (s.ledTimedControl lib c).rspLen ≤ _
    rw [ledTimedControl]
    split_ifs
    · exact rspLen_answer_le _ _ _ (Nat.le_add_right 2 15)
    · exact rspLen_answer_le _ _ _ (hsize _)
    · exact hsize _
    · exact rspLen_answer_le _ _ _ (hsize _)
  | other => exact Nat.zero_le _

end EslLabel

/-! ### A round -/

/-- How many of the commands are for this label alone. -/
def addressed (cs : List EslRound) : ℕ := cs.countP (·.eslId ≠ eslIdBroadcast)

namespace EslResponses

variable (cfg : EslConfig) (lib : EslTlv)

/-- The response to the command is as it should be: it is to come, and is written to `rspBuf`. -/
structure RoundOk (r : EslResponses) (c : EslRound) : Prop where
  /-- A broadcast has none, and what is written to `rsp` fits. -/
  answer : (r.label.command cfg lib c).Ok c.eslId
  /-- `rspLeft` does not go below zero. -/
  owed : (r.label.command cfg lib c).rspLen ≠ 0 → 1 ≤ r.rspLeft.toNat
  /-- What is written to `rspBuf` fits. -/
  inside : (r.round cfg lib c).used ≤ maxEslPayloadSize

/-- What has been written and two bytes for each response to come fit, and the commands `cs` have no
more responses than are to come. -/
structure Budget (r : EslResponses) (cs : List EslRound) : Prop where
  /-- The bytes. -/
  room : r.used + r.rspLeft.toNat * cmdRspMinLength ≤ maxEslPayloadSize
  /-- The responses. -/
  owed : addressed cs ≤ r.rspLeft.toNat

variable {cfg lib}

/-- A response that is to come is written within what there is. -/
theorem add_room (lib : EslTlv) {r : EslResponses} (rsp : Mem) {rspLen : ℕ}
    (howed : 1 ≤ r.rspLeft.toNat)
    (hroom : r.used + r.rspLeft.toNat * cmdRspMinLength ≤ maxEslPayloadSize)
    (hlen : rspLen ≤ cmdRspMaxLength) :
    (r.add lib rsp rspLen).rspLeft.toNat + 1 = r.rspLeft.toNat ∧
      (r.add lib rsp rspLen).used + (r.add lib rsp rspLen).rspLeft.toNat * cmdRspMinLength ≤
        maxEslPayloadSize := by
  have hleft : (r.rspLeft - 1).toNat = r.rspLeft.toNat - 1 :=
    UInt8.toNat_sub_of_le _ _ (UInt8.le_iff_toNat_le.mpr howed)
  have hlt := r.rspLeft.toNat_lt
  rw [cmdRspMinLength, maxEslPayloadSize] at hroom
  rw [cmdRspMaxLength] at hlen
  refine ⟨?_, ?_⟩
  · show (r.rspLeft - 1).toNat + 1 = _
    omega
  · rw [add]
    simp only [Full, hleft, cmdRspMinLength, maxEslPayloadSize, UInt32.lt_iff_toNat_lt,
      lib.responseSize_error, decide_eq_true_eq]
    split_ifs with hfull
    · omega
    · -- the space is not negative, so the unsigned comparison is the one of the numbers
      rw [UInt32.toNat_sub_of_le _ _ (by
          rw [UInt32.le_iff_toNat_le, UInt32.toNat_ofNat', UInt32.toNat_ofNat']
          omega), UInt32.toNat_ofNat', UInt32.toNat_ofNat', UInt32.toNat_ofNat'] at hfull
      omega

theorem addressed_cons (c : EslRound) (cs : List EslRound) :
    addressed (c :: cs) = addressed cs + if c.eslId ≠ eslIdBroadcast then 1 else 0 := by
  rw [addressed, List.countP_cons]
  simp [addressed]

/-- **A round** of a command that is answered as it should be keeps the budget. -/
theorem Budget.round {r : EslResponses} {c : EslRound} {cs : List EslRound}
    (h : r.Budget (c :: cs)) (hok : (r.label.command cfg lib c).Ok c.eslId) :
    r.RoundOk cfg lib c ∧ (r.round cfg lib c).Budget cs := by
  have howed := h.owed
  have hroom := h.room
  rw [addressed_cons] at howed
  by_cases hnone : (r.label.command cfg lib c).rspLen = 0
  · have hround : r.round cfg lib c = { r with label := (r.label.command cfg lib c).label } := by
      rw [EslResponses.round]
      exact if_neg (not_not.mpr hnone)
    refine ⟨⟨hok, fun hsome => absurd hnone hsome, ?_⟩, ⟨?_, ?_⟩⟩
    · rw [hround]
      exact (Nat.le_add_right _ _).trans hroom
    · rw [hround]
      exact hroom
    · rw [hround]
      exact (Nat.le_add_right _ _).trans howed
  · have haddr : c.eslId ≠ eslIdBroadcast := fun hcast => hnone (hok.silent hcast)
    rw [if_pos haddr] at howed
    have hpos : 1 ≤ r.rspLeft.toNat := by omega
    have hround : r.round cfg lib c =
        { r with label := (r.label.command cfg lib c).label }.add lib
          (memcpy c.rsp 0 (r.label.command cfg lib c).written)
          (r.label.command cfg lib c).rspLen := by
      rw [EslResponses.round]
      exact if_pos hnone
    obtain ⟨hleft, hadd⟩ := add_room lib
      (r := { r with label := (r.label.command cfg lib c).label })
      (memcpy c.rsp 0 (r.label.command cfg lib c).written) hpos hroom
      (r.label.command_rspLen_le cfg lib c)
    rw [← hround] at hleft hadd
    have hleft' : (r.round cfg lib c).rspLeft.toNat + 1 = r.rspLeft.toNat := hleft
    refine ⟨⟨hok, fun _ => hpos, (Nat.le_add_right _ _).trans hadd⟩, ⟨hadd, ?_⟩⟩
    omega

/-- **The rounds of a packet** are as they should be exactly if its commands are answered so. -/
theorem Budget.along_iff {r : EslResponses} {cs : List EslRound} (h : r.Budget cs) :
    Along (EslResponses.round cfg lib) (RoundOk cfg lib) r cs ↔
      Along (EslResponses.round cfg lib) (fun r c => ¬ r.label.Misanswers c) r cs := by
  induction cs generalizing r with
  | nil => exact Iff.rfl
  | cons c cs ih =>
    rw [along_cons, along_cons, ← r.label.command_ok_iff cfg lib c]
    constructor
    · rintro ⟨hround, hrest⟩
      exact ⟨hround.answer, (ih (h.round hround.answer).2).mp hrest⟩
    · rintro ⟨hok, hrest⟩
      obtain ⟨hround, hbudget⟩ := h.round hok
      exact ⟨hround, (ih hbudget).mpr hrest⟩

/-- What is written in all fits. -/
theorem Budget.used_le {r : EslResponses} {cs : List EslRound} (h : r.Budget cs)
    (hall : Along (EslResponses.round cfg lib) (RoundOk cfg lib) r cs) :
    (cs.foldl (EslResponses.round cfg lib) r).used ≤ maxEslPayloadSize := by
  induction cs generalizing r with
  | nil => exact (Nat.le_add_right _ _).trans h.room
  | cons c cs ih => exact ih (h.round hall.1.answer).2 hall.2

end EslResponses

/-! ### A packet -/

namespace EslPacket

variable (cfg : EslConfig) (lib : EslTlv) (p : EslPacket) (s : EslLabel)

theorem length_rounds : (p.rounds lib).length = p.numCmds.toNat := by
  have hlen : ∀ (n : ℕ) (q : Mem), (lib.commands n q).length = n := by
    intro n
    induction n with
    | zero => exact fun _ => rfl
    | succ n ih => exact fun q => congrArg (· + 1) (ih _)
  rw [rounds, List.length_map, List.length_zipIdx, hlen]

/-- The first loop counts the commands that are for this label alone. -/
theorem rspLeft_toNat : (p.rspLeft lib).toNat = addressed (p.rounds lib) := by
  have hcount : ∀ (cs : List EslRound) (k : UInt8), k.toNat + cs.length < 2 ^ 8 →
      (cs.foldl (fun rspLeft c => if c.eslId ≠ eslIdBroadcast then rspLeft + 1 else rspLeft)
        k).toNat = k.toNat + addressed cs := by
    intro cs
    induction cs with
    | nil => exact fun _ _ => rfl
    | cons c cs ih =>
      intro k hk
      rw [List.length_cons] at hk
      have hone : (k + 1).toNat = k.toNat + 1 := by
        rw [UInt8.toNat_add]
        show (k.toNat + 1) % 2 ^ 8 = _
        omega
      rw [List.foldl_cons, EslResponses.addressed_cons]
      split_ifs with haddr
      · rw [ih _ (by omega), hone]
        omega
      · rw [ih _ (by omega)]
        rfl
  have hlt := p.numCmds.toNat_lt
  rw [rspLeft, hcount _ _ (by rw [length_rounds]; simpa using hlt)]
  exact Nat.zero_add _

/-- At the start of a packet that is not refused there is room for two bytes per response. -/
theorem budget_start (h : ¬ p.Refused lib) : (p.start lib s).Budget (p.rounds lib) where
  room := by
    have hroom := Nat.le_of_not_lt h
    simpa [start] using hroom
  owed := (p.rspLeft_toNat lib).ge

/-- The responses to a packet that is not refused: every round is as it should be, and what is
written in all fits a payload. -/
def WithinBudget : Prop :=
  ¬ p.Refused lib →
    Along (EslResponses.round cfg lib) (EslResponses.RoundOk cfg lib) (p.start lib s)
        (p.rounds lib) ∧
      ((p.rounds lib).foldl (EslResponses.round cfg lib) (p.start lib s)).used ≤ maxEslPayloadSize

end EslPacket

/-- **The responses to a packet** fit, as many as are to come and none to a broadcast, exactly as
long as it is refused or no command is, in the state it finds, one of the three kinds. -/
theorem responses_within_budget_iff (cfg : EslConfig) (lib : EslTlv) (p : EslPacket)
    (s : EslLabel) :
    p.WithinBudget cfg lib s ↔
      p.Refused lib ∨ Along (EslResponses.round cfg lib) (fun r c => ¬ r.label.Misanswers c)
        (p.start lib s) (p.rounds lib) := by
  constructor
  · intro h
    by_cases hrefused : p.Refused lib
    · exact .inl hrefused
    · exact .inr ((p.budget_start lib s hrefused).along_iff.mp (h hrefused).1)
  · rintro h hrefused
    have hbudget := p.budget_start lib s hrefused
    have hall := hbudget.along_iff.mpr (h.resolve_left hrefused)
    exact ⟨hall, hbudget.used_le hall⟩

/-- A broadcast to leave the access point, two readings of a sensor that there is not, two of the
counter, and a ping: 16 bytes. -/
def crowded : EslPacket :=
  ⟨6, buffer [0x01, 0xFF, 0x10, 1, 2, 0x10, 1, 2, 0x10, 1, 0, 0x10, 1, 0, 0x00, 1] fun _ => 0,
    fun _ => 0, fun _ => ⟨fun _ => 0, fun _ => 0, 0, 0⟩⟩

/-- **The broadcast is answered**, which is not one of the five responses to come: there is none left
for the ping, 255 are then, and the error for it is written to the two bytes behind `rspBuf`. -/
theorem unassociate_broadcast_overflows :
    ¬ crowded.WithinBudget EslConfig.demo EslTlv.nibble EslLabel.boot ∧
      let r := (crowded.rounds EslTlv.nibble).foldl (EslResponses.round EslConfig.demo EslTlv.nibble)
        (crowded.start EslTlv.nibble EslLabel.boot)
      r.rspIndex = 6 ∧ r.rspLeft = 255 ∧ r.used = maxEslPayloadSize + 2 := by
  have hused : ((crowded.rounds EslTlv.nibble).foldl
      (EslResponses.round EslConfig.demo EslTlv.nibble)
      (crowded.start EslTlv.nibble EslLabel.boot)).used = maxEslPayloadSize + 2 := by decide +kernel
  refine ⟨fun h => ?_, by decide +kernel, by decide +kernel, hused⟩
  have hle := (h (by decide +kernel)).2
  omega

end TcBle.Vendor
