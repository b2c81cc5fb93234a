import TcBle.Foundation.Crc
import TcBle.Vendor.OtaClient
import Mathlib.Data.List.Induction

/-!
# The segments of the OTA client

What the data PDUs of an update carry, and the index that ends it.

## What is proved

* `inv_after` — in every state that a run reaches, the PDUs sent are the first ones of the image.
* `exists_announced` — an update that meets no failure comes to its end.
* `segments_iff` — the PDUs carry the image and its padding, and the end announces the last of them,
  exactly when the size of the image is not a multiple of 16.
-/

namespace TcBle.Vendor.OtaClient

open TcBle.HciTransport TcBle.Foundation TcBle.Foundation.Segments

section

variable (c : OtaConfig) (flash : UInt32 → UInt8)

/-- The image at `addr`. -/
def imageAt (addr : UInt32) : List UInt8 := flashReadPage flash addr (sizeAt flash addr).toNat

/-- **What the PDUs are for**: their indices count up from 0, their data parts are multiples of 16
bytes, no longer than a PDU, and are the image padded to a multiple of 16; when the end is
announced, it is the index of the last one and nothing is missing. -/
structure Segmented (s : OtaClient) : Prop where
  /-- The indices. -/
  index : s.pdus.map (fun pdu => pdu.adrIndex.toNat) = List.range s.pdus.length
  /-- The lengths. -/
  part : ∀ pdu ∈ s.pdus, pdu.data.length ≤ c.otaPduLength ∧ 16 ∣ pdu.data.length
  /-- The data. -/
  image : s.pdus.flatMap OtaPdu.data <+: padTo 16 0xFF (imageAt flash s.otaNewFwAddr)
  /-- The end. -/
  whole : ∀ last ∈ s.announced, s.pdus.length = last.toNat + 1 ∧
    s.pdus.flatMap OtaPdu.data = padTo 16 0xFF (imageAt flash s.otaNewFwAddr)

/-- The client segments the image at `addr`: in every state of an update with it, and an update
comes to its end. -/
structure Segments (addr : UInt32) : Prop where
  /-- The PDUs. -/
  segmented : ∀ run, (after c flash run).otaNewFwAddr = addr → Segmented c flash (after c flash run)
  /-- The end. -/
  complete : ∃ run, (after c flash run).otaNewFwAddr = addr ∧ (after c flash run).announced ≠ []

/-- The client takes images of this size. -/
def InRange (addr : UInt32) : Prop :=
  OtaConfig.fwSizeMin ≤ (sizeAt flash addr).toNat ∧ (sizeAt flash addr).toNat ≤ c.fwSizeMax

/-- The last index. -/
def lastIndex (addr : UInt32) : ℕ := (sizeAt flash addr).toNat / c.otaPduLength

/-- How many bytes of the image are read for the last PDU. -/
def lastLen (addr : UInt32) : ℕ :=
  if (sizeAt flash addr).toNat % c.otaPduLength = 0 then c.otaPduLength
  else (sizeAt flash addr).toNat % c.otaPduLength

/-- The data part of PDU `k`. -/
def partAt (addr : UInt32) (k : ℕ) : List UInt8 :=
  if k = lastIndex c flash addr then
    flashReadPage flash (addr + UInt32.ofNat (k * c.otaPduLength)) (lastLen c flash addr) ++
      List.replicate (16 - lastLen c flash addr % 16) 0xFF
  else flashReadPage flash (addr + UInt32.ofNat (k * c.otaPduLength)) c.otaPduLength

/-- PDU `k`. -/
def pduAt (addr : UInt32) (k : ℕ) : OtaPdu := c.otaPdu (UInt16.ofNat k) (partAt c flash addr k)

/-- An update that has sent `n` PDUs, and announced `ends`. -/
structure Underway (s : OtaClient) (n : ℕ) (ends : List UInt16) : Prop where
  /-- The size was taken. -/
  inRange : InRange c flash s.otaNewFwAddr
  /-- The last index. -/
  last : s.lastAdrIndex.toNat = lastIndex c flash s.otaNewFwAddr
  /-- The length of the last part. -/
  validLen : s.lastValidPduLen.toNat = lastLen c flash s.otaNewFwAddr
  /-- The next index. -/
  cur : s.curAdrIndex.toNat = n
  /-- What was sent. -/
  pdus : s.pdus = (List.range n).map (pduAt c flash s.otaNewFwAddr)
  /-- What was announced. -/
  announced : s.announced = ends

/-- **The invariant**: what was sent, step by step of the update. -/
def Inv (s : OtaClient) : Prop :=
  match s.otaUpdateFlow with
  | .idle | .checkFw => s.curAdrIndex = 0 ∧ s.sent = []
  | .otaData => ∃ n ≤ lastIndex c flash s.otaNewFwAddr + 1, Underway c flash s n []
  | .otaEnd => Underway c flash s (lastIndex c flash s.otaNewFwAddr + 1) []
  | .waitOtaResult =>
    Underway c flash s (lastIndex c flash s.otaNewFwAddr + 1) [s.lastAdrIndex]
  | .updateConn | .reqOtaHandle | .waitOtaHandle | .reqFwVersion | .waitFwVersion | .otaStart =>
    Underway c flash s 0 []

end

variable {c : OtaConfig} {flash : UInt32 → UInt8} {s : OtaClient} {addr : UInt32} {n : ℕ}
  {ends : List UInt16}

/-! ### Sizes -/

theorem otaPduLength_pos (c : OtaConfig) : 0 < c.otaPduLength := by
  have := c.one_le
  rw [OtaConfig.otaPduLength]
  omega

theorem otaPduLength_le (c : OtaConfig) : c.otaPduLength ≤ 240 := by
  have := c.le_fifteen
  rw [OtaConfig.otaPduLength]
  omega

theorem lastLen_le : lastLen c flash addr ≤ c.otaPduLength := by
  unfold lastLen
  split_ifs
  · exact le_rfl
  · exact (Nat.mod_lt _ (otaPduLength_pos c)).le

/-- An index is sixteen bits long. -/
theorem lastIndex_lt (h : InRange c flash addr) : lastIndex c flash addr + 1 < 2 ^ 16 := by
  have hmax : (sizeAt flash addr).toNat ≤ 0x7F000 := by
    refine h.2.trans ?_
    unfold OtaConfig.fwSizeMax
    split_ifs <;> decide
  have hdiv : lastIndex c flash addr ≤ (sizeAt flash addr).toNat / 16 := by
    refine Nat.div_le_div_left ?_ (by simp)
    rw [OtaConfig.otaPduLength]
    exact Nat.le_mul_of_pos_right 16 c.one_le
  omega

/-! ### The data parts -/

/-- The bytes at an offset of the image. -/
theorem flashReadPage_add (flash : UInt32 → UInt8) (addr : UInt32) (a n : ℕ) :
    flashReadPage flash (addr + UInt32.ofNat a) n =
      window (fun i => flash (addr + UInt32.ofNat i)) a n := by
  refine List.map_congr_left fun i _ => ?_
  simp only [Nat.zero_add]
  rw [UInt32.ofNat_add, UInt32.add_assoc]

@[simp] theorem length_flashReadPage (flash : UInt32 → UInt8) (addr : UInt32) (n : ℕ) :
    (flashReadPage flash addr n).length = n := length_window _ _ _

@[simp] theorem length_imageAt : (imageAt flash addr).length = (sizeAt flash addr).toNat :=
  length_flashReadPage _ _ _

/-- **The parts before the last** are the start of the image. -/
theorem flatMap_partAt (hn : n ≤ lastIndex c flash addr) :
    (List.range n).flatMap (partAt c flash addr) =
      window (fun i => flash (addr + UInt32.ofNat i)) 0 (n * c.otaPduLength) := by
  rw [← flatMap_window]
  refine List.flatMap_congr fun k hk => ?_
  have hk' := List.mem_range.mp hk
  rw [partAt, if_neg (by omega), flashReadPage_add]

/-- The parts, the last included. -/
theorem flatMap_partAt_last :
    (List.range (lastIndex c flash addr + 1)).flatMap (partAt c flash addr) =
      window (fun i => flash (addr + UInt32.ofNat i)) 0
          (lastIndex c flash addr * c.otaPduLength + lastLen c flash addr) ++
        List.replicate (16 - lastLen c flash addr % 16) 0xFF := by
  rw [List.range_succ, List.flatMap_append, flatMap_partAt le_rfl, window_add, Nat.zero_add,
    List.append_assoc, List.flatMap_singleton, partAt, if_pos rfl, flashReadPage_add]

/-- **All parts of an image** whose size is not a multiple of 16 are the image and its padding. -/
theorem flatMap_partAt_eq_padTo (h : ¬16 ∣ (sizeAt flash addr).toNat) :
    (List.range (lastIndex c flash addr + 1)).flatMap (partAt c flash addr) =
      padTo 16 0xFF (imageAt flash addr) := by
  have hmod : (sizeAt flash addr).toNat % c.otaPduLength % 16 = (sizeAt flash addr).toNat % 16 :=
    Nat.mod_mod_of_dvd _ (Nat.dvd_mul_right 16 c.n)
  have hne : (sizeAt flash addr).toNat % c.otaPduLength ≠ 0 := by
    intro hzero
    rw [hzero] at hmod
    exact h (Nat.dvd_of_mod_eq_zero hmod.symm)
  have hlen : lastLen c flash addr = (sizeAt flash addr).toNat % c.otaPduLength := if_neg hne
  have hsize : lastIndex c flash addr * c.otaPduLength + lastLen c flash addr =
      (sizeAt flash addr).toNat := by
    rw [hlen, lastIndex, Nat.mul_comm]
    exact Nat.div_add_mod _ _
  rw [flatMap_partAt_last, hsize, hlen, hmod, padTo, length_imageAt,
    missing_of_not_dvd (by simp) h]
  rfl

/-- The parts of an image whose size is a multiple of 16 are longer than the image. -/
theorem length_flatMap_partAt_of_dvd (h : 16 ∣ (sizeAt flash addr).toNat) :
    (sizeAt flash addr).toNat <
      ((List.range (lastIndex c flash addr + 1)).flatMap (partAt c flash addr)).length := by
  have hdiv := Nat.div_add_mod (sizeAt flash addr).toNat c.otaPduLength
  rw [Nat.mul_comm] at hdiv
  have hpos := otaPduLength_pos c
  have hlt : lastLen c flash addr % 16 < 16 := Nat.mod_lt _ (by simp)
  rw [flatMap_partAt_last, List.length_append, length_window, List.length_replicate, lastIndex]
  have hle : (sizeAt flash addr).toNat % c.otaPduLength ≤ lastLen c flash addr := by
    unfold lastLen
    split_ifs with hzero
    · rw [hzero]
      exact Nat.zero_le _
    · exact le_rfl
  omega

/-- The lengths of the parts of an image whose size is not a multiple of 16. -/
theorem length_partAt (h : ¬16 ∣ (sizeAt flash addr).toNat) (k : ℕ) :
    (partAt c flash addr k).length ≤ c.otaPduLength ∧ 16 ∣ (partAt c flash addr k).length := by
  have hdvd : 16 ∣ c.otaPduLength := Nat.dvd_mul_right 16 c.n
  unfold partAt
  split_ifs
  · have hmod : lastLen c flash addr % 16 = (sizeAt flash addr).toNat % 16 := by
      unfold lastLen
      split_ifs with hzero
      · exact absurd (Nat.dvd_trans hdvd (Nat.dvd_of_mod_eq_zero hzero)) h
      · exact Nat.mod_mod_of_dvd _ hdvd
    have hle : lastLen c flash addr ≤ c.otaPduLength := lastLen_le
    rw [List.length_append, length_flashReadPage, List.length_replicate]
    obtain ⟨m, hm⟩ := hdvd
    omega
  · rw [length_flashReadPage]
    exact ⟨le_rfl, hdvd⟩

/-! ### The steps -/

theorem pdus_push_of_ne (cmd : OtaCmd) (h : ∀ pdu, cmd ≠ .data pdu) :
    (s.push cmd).pdus = s.pdus := by
  cases cmd with
  | data pdu => exact absurd rfl (h pdu)
  | fwVersionReq _ _ | start | startExt _ _ | stop _ _ => simp [OtaClient.pdus, push]

theorem pdus_push_data (pdu : OtaPdu) : (s.push (.data pdu)).pdus = s.pdus ++ [pdu] := by
  simp [OtaClient.pdus, push]

theorem announced_push_of_ne (cmd : OtaCmd) (h : ∀ m x, cmd ≠ .stop m x) :
    (s.push cmd).announced = s.announced := by
  cases cmd with
  | stop m x => exact absurd rfl (h m x)
  | fwVersionReq _ _ | start | startExt _ _ | data _ => simp [OtaClient.announced, push]

theorem announced_push_stop (m x : UInt16) :
    (s.push (.stop m x)).announced = s.announced ++ [m] := by
  simp [OtaClient.announced, push]

/-- A reset ends the update. -/
theorem inv_reset (s : OtaClient) : Inv c flash s.appOtaReset := ⟨rfl, rfl⟩

/-- What an update is like does not depend on the flow, the connection and the ticks. -/
theorem Underway.congr {s' : OtaClient} (h : Underway c flash s n ends)
    (haddr : s'.otaNewFwAddr = s.otaNewFwAddr) (hlast : s'.lastAdrIndex = s.lastAdrIndex)
    (hlen : s'.lastValidPduLen = s.lastValidPduLen) (hcur : s'.curAdrIndex = s.curAdrIndex)
    (hpdus : s'.pdus = s.pdus) (hends : s'.announced = s.announced) :
    Underway c flash s' n ends := by
  refine ⟨?_, ?_, ?_, ?_, ?_, ?_⟩
  · rw [haddr]
    exact h.inRange
  · rw [haddr, hlast]
    exact h.last
  · rw [haddr, hlen]
    exact h.validLen
  · rw [hcur]
    exact h.cur
  · rw [haddr, hpdus]
    exact h.pdus
  · rw [hends]
    exact h.announced

/-- `OTA_STEP_1_CHECK_FW`. -/
theorem inv_checkFw (hcur : s.curAdrIndex = 0) (hsent : s.sent = []) :
    Inv c flash (s.checkFw c flash) := by
  unfold checkFw
  simp only
  split_ifs with hrange hzero
  · exact inv_reset _
  all_goals
    rw [not_or, Nat.not_lt, Nat.not_lt] at hrange
    have hin : InRange c flash s.otaNewFwAddr := hrange
    have hidx := lastIndex_lt hin
    have hle := otaPduLength_le c
    have hmod := Nat.mod_lt (sizeAt flash s.otaNewFwAddr).toNat (otaPduLength_pos c)
    have hlast : (UInt16.ofNat ((sizeAt flash s.otaNewFwAddr).toNat / c.otaPduLength)).toNat =
        lastIndex c flash s.otaNewFwAddr := by
      rw [UInt16.toNat_ofNat', lastIndex]
      exact Nat.mod_eq_of_lt (by rw [lastIndex] at hidx; omega)
    rw [← UInt8.toNat_inj, UInt8.toNat_ofNat', Nat.mod_eq_of_lt (by omega)] at hzero
    refine ⟨hin, hlast, ?_, congrArg UInt16.toNat hcur, ?_, ?_⟩
  · have hzero' : (sizeAt flash s.otaNewFwAddr).toNat % c.otaPduLength = 0 := hzero
    exact (UInt8.toNat_ofNat' ..).trans ((Nat.mod_eq_of_lt (by omega)).trans (if_pos hzero').symm)
  · simp [OtaClient.pdus, appUpdateOtaFlow, hsent]
  · simp [OtaClient.announced, appUpdateOtaFlow, hsent]
  · have hzero' : (sizeAt flash s.otaNewFwAddr).toNat % c.otaPduLength ≠ 0 := hzero
    exact (UInt8.toNat_ofNat' ..).trans ((Nat.mod_eq_of_lt (by omega)).trans (if_neg hzero').symm)
  · simp [OtaClient.pdus, appUpdateOtaFlow, hsent]
  · simp [OtaClient.announced, appUpdateOtaFlow, hsent]

/-- The data part of the next PDU. -/
theorem Underway.pduData (h : Underway c flash s n ends) :
    s.pduData c flash = partAt c flash s.otaNewFwAddr n := by
  have hand : (s.lastValidPduLen &&& 15).toNat = lastLen c flash s.otaNewFwAddr % 16 := by
    rw [UInt8.toNat_and, h.validLen]
    exact Nat.and_two_pow_sub_one_eq_mod _ 4
  have heq : s.curAdrIndex = s.lastAdrIndex ↔ n = lastIndex c flash s.otaNewFwAddr := by
    rw [← UInt16.toNat_inj, h.cur, h.last]
  unfold OtaClient.pduData partAt
  simp only [heq, h.cur, h.validLen, hand]

/-- **A data PDU that is sent.** -/
theorem Underway.send (h : Underway c flash s n ends) (hn : n ≤ lastIndex c flash s.otaNewFwAddr) :
    Underway c flash { s.push (.data (c.otaPdu s.curAdrIndex (s.pduData c flash))) with
      curAdrIndex := s.curAdrIndex + 1 } (n + 1) ends := by
  have hidx := lastIndex_lt h.inRange
  have hcur : s.curAdrIndex = UInt16.ofNat n := by
    rw [← UInt16.toNat_inj, h.cur, UInt16.toNat_ofNat', Nat.mod_eq_of_lt (by omega)]
  have hpdu : c.otaPdu s.curAdrIndex (s.pduData c flash) = pduAt c flash s.otaNewFwAddr n := by
    rw [h.pduData, hcur]
    rfl
  refine ⟨h.inRange, h.last, h.validLen, ?_, ?_, ?_⟩
  · have hsucc : (s.curAdrIndex + 1).toNat = n + 1 := by
      rw [UInt16.toNat_add, h.cur]
      exact Nat.mod_eq_of_lt (Nat.lt_of_le_of_lt (Nat.succ_le_succ hn) hidx)
    exact hsucc
  · rw [hpdu]
    refine (pdus_push_data _).trans ?_
    rw [h.pdus, List.range_succ, List.map_append]
    rfl
  · exact (announced_push_of_ne _ fun _ _ h => by cases h).trans h.announced

/-- `OTA_STEP_5_REQ_FW_VERSION`. -/
theorem inv_reqFwVersion (h : Underway c flash s 0 []) (p : OtaPoll)
    (hflow : s.otaUpdateFlow = .reqFwVersion) :
    Inv c flash (s.reqFwVersion c p) := by
  unfold reqFwVersion
  simp only
  split_ifs
  · exact h.congr rfl rfl rfl rfl (pdus_push_of_ne _ fun _ h => by cases h)
      (announced_push_of_ne _ fun _ _ h => by cases h)
  · simp only [Inv, hflow]
    exact h.congr rfl rfl rfl rfl rfl rfl
  · exact h.congr rfl rfl rfl rfl rfl rfl

/-- `OTA_STEP_7_OTA_START`. -/
theorem inv_otaStart (h : Underway c flash s 0 []) (p : OtaPoll)
    (hflow : s.otaUpdateFlow = .otaStart) :
    Inv c flash (s.otaStart c p) := by
  unfold otaStart
  split_ifs
  · exact ⟨0, Nat.zero_le _, h.congr rfl rfl rfl rfl (pdus_push_of_ne _ fun _ h => by cases h)
      (announced_push_of_ne _ fun _ _ h => by cases h)⟩
  · exact ⟨0, Nat.zero_le _, h.congr rfl rfl rfl rfl (pdus_push_of_ne _ fun _ h => by cases h)
      (announced_push_of_ne _ fun _ _ h => by cases h)⟩
  · simp only [Inv, hflow]
    exact h

/-- `OTA_STEP_8_OTA_DATA`. -/
theorem inv_otaData (hn : n ≤ lastIndex c flash s.otaNewFwAddr + 1) (h : Underway c flash s n [])
    (p : OtaPoll) (hflow : s.otaUpdateFlow = .otaData) : Inv c flash (s.otaData c flash p) := by
  have hle : s.curAdrIndex ≤ s.lastAdrIndex ↔ n ≤ lastIndex c flash s.otaNewFwAddr := by
    rw [UInt16.le_iff_toNat_le, h.cur, h.last]
  have hkept : ∀ s' : OtaClient, s' = { s with pushOtaDataTick := s'.pushOtaDataTick } →
      Inv c flash s' := by
    rintro s' hs'
    rw [hs']
    simp only [Inv, hflow]
    exact ⟨n, hn, h.congr rfl rfl rfl rfl rfl rfl⟩
  unfold otaData
  simp only
  split_ifs with h₁ h₂ h₃ hnext hpush
  · exact hkept _ rfl
  · exact hkept _ rfl
  · exact hkept _ rfl
  · have hn' := hle.mp hnext
    have hsend := h.send hn'
    simp only [Inv, hflow, push]
    exact ⟨n + 1, Nat.succ_le_succ hn', hsend.congr rfl rfl rfl rfl rfl rfl⟩
  · exact hkept _ rfl
  · rw [hle] at hnext
    obtain rfl : n = lastIndex c flash s.otaNewFwAddr + 1 := by omega
    exact h.congr rfl rfl rfl rfl rfl rfl

/-- `OTA_STEP_9_OTA_END`. -/
theorem inv_otaEnd (h : Underway c flash s (lastIndex c flash s.otaNewFwAddr + 1) [])
    (p : OtaPoll) (hflow : s.otaUpdateFlow = .otaEnd) : Inv c flash (s.otaEnd p) := by
  unfold otaEnd
  split_ifs
  · refine ⟨h.inRange, h.last, h.validLen, h.cur, ?_, ?_⟩
    · exact (pdus_push_of_ne _ fun _ h => by cases h).trans h.pdus
    · refine (announced_push_stop _ _).trans ?_
      rw [h.announced]
      rfl
  · simp only [Inv, hflow]
    exact h

theorem inv_procOtaFlow (h : Inv c flash s) (p : OtaPoll) :
    Inv c flash (s.procOtaFlow c flash p) := by
  have hinv := h
  unfold procOtaFlow
  cases hflow : s.otaUpdateFlow <;> simp only [Inv, hflow] at h <;> simp only
  case checkFw => exact inv_checkFw h.1 h.2
  case updateConn =>
    split_ifs
    · exact h.congr rfl rfl rfl rfl rfl rfl
    · exact hinv
  case reqOtaHandle =>
    split_ifs
    · exact h.congr rfl rfl rfl rfl rfl rfl
    · exact hinv
  case reqFwVersion => exact inv_reqFwVersion h p hflow
  case otaStart => exact inv_otaStart h p hflow
  case otaData =>
    obtain ⟨n, hn, hunder⟩ := h
    exact inv_otaData hn hunder p hflow
  case otaEnd => exact inv_otaEnd h p hflow
  case waitOtaResult =>
    unfold waitOtaResult
    split_ifs
    · exact inv_reset s
    · exact inv_reset s
    · exact hinv
    · exact hinv
  all_goals exact hinv

/-- **The step lemma.** -/
theorem inv_step (h : Inv c flash s) (e : Event) : Inv c flash (s.step c flash e) := by
  cases e with
  | trigger newFwAddr connHandle =>
    rw [step, appKeyTriggerOtaStart]
    split_ifs with hidle
    · simp only [Inv, hidle] at h
      exact h
    · exact h
  | poll p =>
    rw [step, appProcessOtaMainloop, appProcOtaUpdate]
    split_ifs
    · exact inv_reset s
    · exact inv_procOtaFlow h p
    · exact h
  | readByTypeRsp handle =>
    rw [step, appOtaProcessReadByTypeResponse]
    split_ifs with hwait
    · simp only [Inv, hwait] at h
      exact h.congr rfl rfl rfl rfl rfl rfl
    · exact h
  | versionRsp handle versionAccept =>
    rw [step, processVersionRsp]
    split_ifs with _ _ hwait
    · exact h
    · exact inv_reset s
    · simp only [Inv, hwait] at h
      exact h.congr rfl rfl rfl rfl rfl rfl
    · exact h
    · exact h
  | otaResult handle =>
    rw [step, processOtaResult]
    split_ifs
    · exact h
    · exact inv_reset s
    · exact h
    · exact h
  | terminate connHandle =>
    rw [step, appProcessOtaConnectionTerminate]
    split_ifs
    · exact inv_reset s
    · exact h
    · exact h

/-- **The run lemma.** -/
theorem inv_after (c : OtaConfig) (flash : UInt32 → UInt8) (run : List Event) :
    Inv c flash (after c flash run) := by
  induction run using List.reverseRecOn with
  | nil => exact ⟨rfl, rfl⟩
  | append_singleton run e ih =>
    rw [after, List.foldl_append]
    exact inv_step ih e

/-- What the invariant tells about the PDUs. -/
theorem Inv.cases (h : Inv c flash s) : (s.pdus = [] ∧ s.announced = []) ∨
    ∃ n ≤ lastIndex c flash s.otaNewFwAddr + 1, ∃ ends, Underway c flash s n ends ∧
      (ends = [] ∨ n = lastIndex c flash s.otaNewFwAddr + 1 ∧ ends = [s.lastAdrIndex]) := by
  have hnone : s.sent = [] → s.pdus = [] ∧ s.announced = [] := by
    intro hsent
    simp [OtaClient.pdus, OtaClient.announced, hsent]
  cases hflow : s.otaUpdateFlow <;> simp only [Inv, hflow] at h
  case idle => exact Or.inl (hnone h.2)
  case checkFw => exact Or.inl (hnone h.2)
  case otaData =>
    obtain ⟨n, hn, hunder⟩ := h
    exact Or.inr ⟨n, hn, _, hunder, Or.inl rfl⟩
  case otaEnd => exact Or.inr ⟨_, le_rfl, _, h, Or.inl rfl⟩
  case waitOtaResult => exact Or.inr ⟨_, le_rfl, _, h, Or.inr ⟨rfl, rfl⟩⟩
  all_goals exact Or.inr ⟨0, Nat.zero_le _, _, h, Or.inl rfl⟩

/-- The data of the PDUs sent. -/
theorem Underway.flatMap_data (h : Underway c flash s n ends) :
    s.pdus.flatMap OtaPdu.data = (List.range n).flatMap (partAt c flash s.otaNewFwAddr) := by
  rw [h.pdus, List.flatMap_map]
  rfl

/-- **An image whose size is not a multiple of 16 is segmented.** -/
theorem Inv.segmented (h : Inv c flash s) (hdvd : ¬16 ∣ (sizeAt flash s.otaNewFwAddr).toNat) :
    Segmented c flash s := by
  obtain ⟨hpdus, hends⟩ | ⟨n, hn, ends, hunder, hends⟩ := h.cases
  · refine ⟨by simp [hpdus], by simp [hpdus], by simp [hpdus], by simp [hends]⟩
  · have hidx := lastIndex_lt hunder.inRange
    have hwhole := flatMap_partAt_eq_padTo (c := c) hdvd
    refine ⟨?_, ?_, ?_, ?_⟩
    · rw [hunder.pdus, List.map_map, List.length_map, List.length_range]
      refine (List.map_congr_left fun k hk => ?_).trans (List.map_id _)
      have hk' := List.mem_range.mp hk
      exact (UInt16.toNat_ofNat' ..).trans (Nat.mod_eq_of_lt (by omega))
    · intro pdu hpdu
      rw [hunder.pdus] at hpdu
      obtain ⟨k, -, rfl⟩ := List.mem_map.mp hpdu
      exact length_partAt hdvd k
    · rw [hunder.flatMap_data, ← hwhole]
      obtain ⟨d, hd⟩ := Nat.exists_eq_add_of_le hn
      rw [hd, List.range_add, List.flatMap_append]
      exact List.prefix_append _ _
    · intro last hlast
      rw [hunder.announced] at hlast
      rcases hends with rfl | ⟨rfl, rfl⟩
      · exact absurd hlast List.not_mem_nil
      · obtain rfl := List.mem_singleton.mp hlast
        refine ⟨?_, ?_⟩
        · rw [hunder.pdus, List.length_map, List.length_range, hunder.last]
        · rw [hunder.flatMap_data, hwhole]

/-- **An image whose size is a multiple of 16** is not, once the last PDU is sent. -/
theorem Underway.not_segmented
    (h : Underway c flash s (lastIndex c flash s.otaNewFwAddr + 1) ends)
    (hdvd : 16 ∣ (sizeAt flash s.otaNewFwAddr).toNat) : ¬Segmented c flash s := by
  intro hseg
  have hlen := hseg.image.length_le
  rw [h.flatMap_data, padTo_of_dvd (by rwa [length_imageAt]), length_imageAt] at hlen
  exact absurd (length_flatMap_partAt_of_dvd hdvd) (Nat.not_lt.mpr hlen)

/-! ### An update that meets no failure -/

/-- A call that finds nothing in its way. -/
def smooth (now : UInt32) : OtaPoll := ⟨now, true, true, true, 0⟩

/-- The events up to the first data PDU. -/
def opening (addr : UInt32) : List Event :=
  [.trigger addr 1, .poll (smooth 0), .poll (smooth 0), .poll (smooth 0), .readByTypeRsp 1,
    .poll (smooth 0), .versionRsp 1 true, .poll (smooth 0)]

/-- When PDU `k` is sent: a millisecond after the one before. -/
def sendTick (k : ℕ) : ℕ := 16000000 + k * 16000

/-- The client as it comes to send PDU `k`. -/
structure Ready (s : OtaClient) (addr : UInt32) (k : ℕ) : Prop where
  /-- It sends data. -/
  flow : s.otaUpdateFlow = .otaData
  /-- The image. -/
  addr : s.otaNewFwAddr = addr
  /-- The next index. -/
  cur : s.curAdrIndex.toNat = k
  /-- When the update started. -/
  start : s.otaStartTick = 1
  /-- When the PDU before was sent. -/
  tick : s.pushOtaDataTick.toNat + 8000 < sendTick k

/-- A round of the main loop that does not time out. -/
theorem step_poll {p : OtaPoll} (hflow : s.otaUpdateFlow ≠ .idle)
    (htime : ¬(s.otaStartTick ≠ 0 ∧
      clockTimeExceed p.now s.otaStartTick (otaTimeoutS * 1000000) = true)) :
    s.step c flash (.poll p) = s.procOtaFlow c flash p := by
  rw [step, appProcessOtaMainloop, if_pos hflow, appProcOtaUpdate, if_neg htime]

/-- An update that is not started yet, at step `flow`. -/
structure Opening (s : OtaClient) (addr : UInt32) (flow : OtaFlow) : Prop where
  /-- The step. -/
  flow : s.otaUpdateFlow = flow
  /-- The image. -/
  addr : s.otaNewFwAddr = addr
  /-- No PDU was sent. -/
  cur : s.curAdrIndex = 0
  /-- There is no timeout. -/
  start : s.otaStartTick = 0
  /-- No PDU was sent since boot. -/
  tick : s.pushOtaDataTick = 0

theorem Opening.step_poll {flow : OtaFlow} (h : Opening s addr flow) (hflow : flow ≠ .idle) :
    s.step c flash (.poll (smooth 0)) = s.procOtaFlow c flash (smooth 0) :=
  OtaClient.step_poll (by rwa [h.flow]) fun htime => htime.1 h.start

/-- `OTA_STEP_1_CHECK_FW` of an image of a size that is taken. -/
theorem Opening.checkFw (h : Opening s addr .checkFw) (hrange : InRange c flash addr) :
    Opening (s.step c flash (.poll (smooth 0))) addr .updateConn := by
  have hsize : ¬((sizeAt flash s.otaNewFwAddr).toNat < OtaConfig.fwSizeMin ∨
      c.fwSizeMax < (sizeAt flash s.otaNewFwAddr).toNat) := by
    rw [h.addr, not_or, Nat.not_lt, Nat.not_lt]
    exact hrange
  rw [h.step_poll (by simp)]
  simp only [procOtaFlow, h.flow, OtaClient.checkFw, hsize, if_false]
  split_ifs <;> exact ⟨rfl, h.addr, h.cur, h.start, h.tick⟩

/-- The steps up to the answer with the handle. -/
theorem Opening.connect (h : Opening s addr .updateConn) :
    Opening ([Event.poll (smooth 0), .poll (smooth 0), .readByTypeRsp 1].foldl (step c flash) s)
        addr .reqFwVersion ∧
      ([Event.poll (smooth 0), .poll (smooth 0), .readByTypeRsp 1].foldl
        (step c flash) s).otaAttHandle = 1 := by
  have h₁ : Opening (s.step c flash (.poll (smooth 0))) addr .reqOtaHandle := by
    rw [h.step_poll (by simp), procOtaFlow, h.flow]
    exact ⟨rfl, h.addr, h.cur, h.start, h.tick⟩
  have h₂ : Opening ((s.step c flash (.poll (smooth 0))).step c flash (.poll (smooth 0))) addr
      .waitOtaHandle := by
    rw [h₁.step_poll (by simp), procOtaFlow, h₁.flow]
    exact ⟨rfl, h₁.addr, h₁.cur, h₁.start, h₁.tick⟩
  rw [List.foldl_cons, List.foldl_cons, List.foldl_cons, List.foldl_nil]
  generalize (s.step c flash (.poll (smooth 0))).step c flash (.poll (smooth 0)) = s at h₂ ⊢
  rw [step, appOtaProcessReadByTypeResponse, if_pos h₂.flow]
  exact ⟨⟨rfl, h₂.addr, h₂.cur, h₂.start, h₂.tick⟩, rfl⟩

/-- The exchange of the version, or none. -/
theorem Opening.version (h : Opening s addr .reqFwVersion) (hhandle : s.otaAttHandle = 1) :
    Opening ([Event.poll (smooth 0), .versionRsp 1 true].foldl (step c flash) s) addr
      .otaStart := by
  rw [List.foldl_cons, List.foldl_cons, List.foldl_nil, h.step_poll (by simp), procOtaFlow,
    h.flow]
  simp only [step, reqFwVersion, processVersionRsp]
  cases hx : (c.versionExchange && !c.legacyProtocol) with
  | true =>
    have hlegacy : c.legacyProtocol = false := by
      rw [Bool.and_eq_true, Bool.not_eq_true'] at hx
      exact hx.2
    simp only [hlegacy, smooth, if_true, push, appUpdateOtaFlow, hhandle]
    simp
    exact ⟨rfl, h.addr, h.cur, h.start, h.tick⟩
  | false =>
    simp only [appUpdateOtaFlow]
    simp
    exact ⟨rfl, h.addr, h.cur, h.start, h.tick⟩

theorem otaStart_of_push {p : OtaPoll} (hpush : p.pushWriteCommand = true) (s : OtaClient) :
    (s.otaStart c p).otaUpdateFlow = .otaData ∧ (s.otaStart c p).otaNewFwAddr = s.otaNewFwAddr ∧
      (s.otaStart c p).curAdrIndex = s.curAdrIndex ∧ (s.otaStart c p).otaStartTick = p.now ||| 1 ∧
      (s.otaStart c p).pushOtaDataTick = s.pushOtaDataTick := by
  rw [otaStart, if_pos hpush]
  exact ⟨rfl, rfl, rfl, rfl, rfl⟩

/-- `OTA_STEP_7_OTA_START`. -/
theorem Opening.start_ready (h : Opening s addr .otaStart) :
    Ready (s.step c flash (.poll (smooth 0))) addr 0 := by
  obtain ⟨hflow, haddr, hcur, hstart, htick⟩ :=
    otaStart_of_push (c := c) (p := smooth 0) rfl s
  have hstep : s.step c flash (.poll (smooth 0)) = s.otaStart c (smooth 0) := by
    rw [h.step_poll (by simp), procOtaFlow, h.flow]
  rw [hstep]
  generalize s.otaStart c (smooth 0) = s' at *
  refine ⟨hflow, haddr.trans h.addr, ?_, hstart, ?_⟩
  · rw [hcur, h.cur, UInt16.toNat_zero]
  · rw [htick, h.tick, sendTick, UInt32.toNat_zero]
    omega

theorem foldl_opening (s : OtaClient) : (opening addr).foldl (step c flash) s =
    ([Event.poll (smooth 0), .versionRsp 1 true].foldl (step c flash)
      ([Event.poll (smooth 0), .poll (smooth 0), .readByTypeRsp 1].foldl (step c flash)
        ((s.step c flash (.trigger addr 1)).step c flash (.poll (smooth 0))))).step c flash
          (.poll (smooth 0)) := by
  simp only [opening, List.foldl_cons, List.foldl_nil]

/-- **An update that meets no failure comes to its first data PDU.** -/
theorem ready_opening (h : InRange c flash addr) :
    Ready ((opening addr).foldl (step c flash) boot) addr 0 := by
  have htrigger : Opening (boot.step c flash (.trigger addr 1)) addr .checkFw :=
    ⟨rfl, rfl, rfl, rfl, rfl⟩
  rw [foldl_opening]
  generalize boot.step c flash (.trigger addr 1) = s at htrigger
  obtain ⟨hconnect, hhandle⟩ := @Opening.connect c flash _ _ (htrigger.checkFw h)
  exact (hconnect.version hhandle).start_ready

/-- A poll at tick `k`. -/
def pollAt (k : ℕ) : OtaPoll := smooth (UInt32.ofNat (sendTick k))

theorem toNat_now_pollAt {k : ℕ} (hk : k < 2 ^ 16) : (pollAt k).now.toNat = sendTick k := by
  have hlt : sendTick k < 2 ^ 32 := by
    rw [sendTick]
    omega
  rw [pollAt, smooth, UInt32.toNat_ofNat', Nat.mod_eq_of_lt hlt]

/-- The time that has passed, where the counter has not wrapped around. -/
theorem clockTimeExceed_iff {now ref : UInt32} {us : ℕ} (hus : us * 16 < 2 ^ 32)
    (hle : ref.toNat ≤ now.toNat) :
    clockTimeExceed now ref us = true ↔ ref.toNat + us * 16 < now.toNat := by
  rw [clockTimeExceed, decide_eq_true_iff, UInt32.lt_iff_toNat_lt, UInt32.toNat_ofNat',
    UInt32.toNat_sub_of_le _ _ (UInt32.le_iff_toNat_le.mpr hle), sysTickPerUs,
    Nat.mod_eq_of_lt hus]
  omega

/-- The update does not time out. -/
theorem not_timedOut {k : ℕ} (hk : k < 2 ^ 16) :
    ¬clockTimeExceed (pollAt k).now 1 (otaTimeoutS * 1000000) = true := by
  have hnow := toNat_now_pollAt hk
  have hone : (1 : UInt32).toNat = 1 := rfl
  have hsend : 16000000 ≤ sendTick k ∧ sendTick k < 16000000 + 2 ^ 16 * 16000 := by
    rw [sendTick]
    omega
  rw [clockTimeExceed_iff (by rw [otaTimeoutS]; omega) (by omega), hone, hnow, otaTimeoutS]
  omega

theorem procOtaFlow_of_otaData {p : OtaPoll} (h : s.otaUpdateFlow = .otaData) :
    s.procOtaFlow c flash p = s.otaData c flash p := by rw [procOtaFlow, h]

/-- `OTA_STEP_8_OTA_DATA` with nothing in its way. -/
theorem otaData_of_free {p : OtaPoll} (hbegun : clockTimeExceed p.now s.otaStartTick 50000 = true)
    (hpaced : clockTimeExceed p.now s.pushOtaDataTick 500 = true)
    (hfifo : ¬(c.aclMasterTxFifoNum : ℤ) - 4 ≤ (p.txFifoNumber : ℤ))
    (hpush : p.pushWriteCommand = true) :
    s.otaData c flash p =
      if s.curAdrIndex ≤ s.lastAdrIndex then
        { { s with pushOtaDataTick := p.now }.push
            (.data (c.otaPdu s.curAdrIndex (s.pduData c flash))) with
          curAdrIndex := s.curAdrIndex + 1 }
      else { s with pushOtaDataTick := p.now, otaUpdateFlow := .otaEnd } := by
  simp only [otaData, hbegun, hpaced, hpush, if_neg hfifo, Bool.not_true, Bool.false_eq_true,
    if_false, if_true]
  rfl

theorem Ready.step_poll {k : ℕ} (h : Ready s addr k) (hk : k < 2 ^ 16) :
    s.step c flash (.poll (pollAt k)) =
      if s.curAdrIndex ≤ s.lastAdrIndex then
        { { s with pushOtaDataTick := (pollAt k).now }.push
            (.data (c.otaPdu s.curAdrIndex (s.pduData c flash))) with
          curAdrIndex := s.curAdrIndex + 1 }
      else { s with pushOtaDataTick := (pollAt k).now, otaUpdateFlow := .otaEnd } := by
  have hnow := toNat_now_pollAt hk
  have htick := h.tick
  have hstart : s.otaStartTick.toNat = 1 := congrArg UInt32.toNat h.start
  have hsend : 16000000 ≤ sendTick k ∧ sendTick k < 16000000 + 2 ^ 16 * 16000 := by
    rw [sendTick]
    omega
  have hfifo : ¬(c.aclMasterTxFifoNum : ℤ) - 4 ≤ ((pollAt k).txFifoNumber : ℤ) := by
    have := c.eight_le
    simp only [pollAt, smooth]
    omega
  rw [OtaClient.step_poll (by rw [h.flow]; decide) fun hboth =>
    not_timedOut hk (h.start ▸ hboth.2), procOtaFlow_of_otaData h.flow]
  refine otaData_of_free ?_ ?_ hfifo rfl
  · rw [clockTimeExceed_iff (by omega) (by omega), hstart, hnow]
    omega
  · rw [clockTimeExceed_iff (by omega) (by omega), hnow]
    omega

/-- **One more PDU.** -/
theorem Ready.next {k : ℕ} (h : Ready s addr k) (hinv : Inv c flash s)
    (hk : k ≤ lastIndex c flash addr) :
    Ready (s.step c flash (.poll (pollAt k))) addr (k + 1) := by
  obtain ⟨n, hn, hunder⟩ : ∃ n ≤ lastIndex c flash s.otaNewFwAddr + 1, Underway c flash s n [] := by
    simpa only [Inv, h.flow] using hinv
  have hidx := lastIndex_lt hunder.inRange
  rw [h.addr] at hidx
  have hle : s.curAdrIndex ≤ s.lastAdrIndex := by
    rw [UInt16.le_iff_toNat_le, hunder.last, h.cur, h.addr]
    exact hk
  rw [h.step_poll (by omega), if_pos hle]
  refine ⟨h.flow, h.addr, ?_, h.start, ?_⟩
  · have hsucc : (s.curAdrIndex + 1).toNat = k + 1 := by
      rw [UInt16.toNat_add, h.cur]
      exact Nat.mod_eq_of_lt (Nat.lt_of_le_of_lt (Nat.succ_le_succ hk) hidx)
    exact hsucc
  · have htick : (pollAt k).now.toNat + 8000 < sendTick (k + 1) := by
      rw [toNat_now_pollAt (by omega), sendTick, sendTick]
      omega
    exact htick

/-- The polls that send the first `k` PDUs. -/
def polls (k : ℕ) : List Event := (List.range k).map fun i => .poll (pollAt i)

theorem after_append (run events : List Event) :
    after c flash (run ++ events) = events.foldl (step c flash) (after c flash run) :=
  List.foldl_append

/-- **All PDUs of an update that meets no failure.** -/
theorem ready_polls (h : InRange c flash addr) (k : ℕ) (hk : k ≤ lastIndex c flash addr + 1) :
    Ready (after c flash (opening addr ++ polls k)) addr k := by
  induction k with
  | zero =>
    rw [polls, List.range_zero, List.map_nil, List.append_nil]
    exact ready_opening h
  | succ k ih =>
    have hready := ih (by omega)
    have hinv := inv_after c flash (opening addr ++ polls k)
    have hsplit : opening addr ++ polls (k + 1) =
        (opening addr ++ polls k) ++ [.poll (pollAt k)] := by
      simp [polls, List.range_succ]
    rw [hsplit, after_append, List.foldl_cons, List.foldl_nil]
    exact hready.next hinv (by omega)

/-- A client that has sent all PDUs. -/
theorem Ready.underway (h : Ready s addr n) (hinv : Inv c flash s) : Underway c flash s n [] := by
  simp only [Inv, h.flow] at hinv
  obtain ⟨m, -, hunder⟩ := hinv
  obtain rfl : m = n := hunder.cur.symm.trans h.cur
  exact hunder

/-- The end is announced after the last PDU. -/
theorem Ready.announce (h : Ready s addr (lastIndex c flash addr + 1)) (hinv : Inv c flash s)
    {p : OtaPoll} (hp : p = pollAt (lastIndex c flash addr + 1)) :
    ((s.step c flash (.poll p)).step c flash (.poll p)).otaNewFwAddr = addr ∧
      ((s.step c flash (.poll p)).step c flash (.poll p)).announced ≠ [] := by
  subst hp
  have hunder := h.underway hinv
  have hidx := lastIndex_lt hunder.inRange
  rw [h.addr] at hidx
  have hover : ¬s.curAdrIndex ≤ s.lastAdrIndex := by
    rw [UInt16.le_iff_toNat_le, hunder.last, hunder.cur, h.addr]
    omega
  rw [h.step_poll (by omega), if_neg hover]
  rw [OtaClient.step_poll (by simp) fun hboth =>
    not_timedOut (by omega) (h.start ▸ hboth.2)]
  simp only [procOtaFlow, otaEnd, pollAt, smooth, if_true]
  exact ⟨h.addr, fun hnil => absurd ((announced_push_stop _ _).symm.trans hnil) (by simp)⟩

/-- **An update that meets no failure comes to its end.** -/
theorem exists_announced (h : InRange c flash addr) :
    ∃ run, (after c flash run).otaNewFwAddr = addr ∧ (after c flash run).announced ≠ [] := by
  have hready := ready_polls h _ le_rfl
  have hinv := inv_after c flash (opening addr ++ polls (lastIndex c flash addr + 1))
  refine ⟨opening addr ++ polls (lastIndex c flash addr + 1) ++
    [.poll (pollAt (lastIndex c flash addr + 1)), .poll (pollAt (lastIndex c flash addr + 1))], ?_⟩
  rw [after_append, List.foldl_cons, List.foldl_cons, List.foldl_nil]
  generalize after c flash (opening addr ++ polls (lastIndex c flash addr + 1)) = s at hready hinv ⊢
  exact hready.announce hinv rfl

/-- The PDUs of an image whose size is a multiple of 16 are too many. -/
theorem Ready.not_segmented (h : Ready s addr (lastIndex c flash addr + 1)) (hinv : Inv c flash s)
    (hdvd : 16 ∣ (sizeAt flash addr).toNat) : ¬Segmented c flash s := by
  obtain rfl := h.addr
  exact (h.underway hinv).not_segmented hdvd

theorem not_segments_of_dvd (h : InRange c flash addr) (hdvd : 16 ∣ (sizeAt flash addr).toNat) :
    ¬Segments c flash addr := by
  intro hseg
  have hready := ready_polls h _ le_rfl
  exact hready.not_segmented (inv_after c flash _) hdvd (hseg.segmented _ hready.addr)

/-- **The client segments an image** of a size that it takes exactly when the size is not a multiple
of 16. -/
theorem segments_iff (c : OtaConfig) (flash : UInt32 → UInt8) (addr : UInt32)
    (h : InRange c flash addr) :
    Segments c flash addr ↔ ¬16 ∣ (sizeAt flash addr).toNat := by
  refine ⟨fun hseg hdvd => not_segments_of_dvd h hdvd hseg, fun hdvd => ⟨fun run haddr => ?_,
    exists_announced h⟩⟩
  have hinv := inv_after c flash run
  rw [← haddr] at hdvd
  exact hinv.segmented hdvd

/-- The configuration of the example: PDUs of 240 bytes. -/
def bigPdu : OtaConfig where
  n := 15
  one_le := by decide
  le_fifteen := by decide
  core9518 := false
  legacyProtocol := false
  versionExchange := false
  versionCompare := false
  aclMasterTxFifoNum := 8
  eight_le := by decide
  crc16 := fun data => ⟨Crc.crc 0xA001#16 0xFFFF#16 data⟩

instance : Decidable (InRange c flash addr) := inferInstanceAs (Decidable (_ ∧ _))

/-- A flash with an image of `0x4000 + low` bytes at `0x20000`. -/
def flashWith (low : UInt8) (a : UInt32) : UInt8 :=
  if a = 0x20018 then low else if a = 0x20019 then 0x40 else if a < 0x20018 then 0x55 else 0

/-- An image of 16388 bytes. -/
theorem image16388_segmented : Segments bigPdu (flashWith 4) 0x20000 :=
  (segments_iff bigPdu (flashWith 4) 0x20000 (by decide)).mpr (by decide)

/-- **An image of 16 KiB** gets 16 bytes of padding too much. -/
theorem image16384_not_segmented :
    ¬∀ (c : OtaConfig) (flash : UInt32 → UInt8) (addr : UInt32), InRange c flash addr →
      Segments c flash addr := by
  intro hall
  have hrange : InRange bigPdu (flashWith 0) 0x20000 := by decide
  exact not_segments_of_dvd hrange (by decide) (hall bigPdu (flashWith 0) 0x20000 hrange)

end TcBle.Vendor.OtaClient
