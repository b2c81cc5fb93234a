import TcBle.HciTransport.TrH4
import Mathlib.Logic.Relation

/-!
# Termination and bounds of the H4 receive handler

What `HCI_Tr_H4RxHandler` touches while it works on a chunk: the bytes of the chunk and of
the backup buffer that it reads or copies, and what it takes from `len`.

## The model

The loop is seen round by round: `H4Round` is its state at the start of a round, and
`accesses` lists what the round touches, in the order of the code. `Contained` asks that the
loop ends, that nothing is taken from `len` that is not there, and that every access stays
inside the chunk and the backup buffer.

## What is proved

* `inside_iff` — in one round, all accesses stay inside exactly when the backup handler has
  more bytes than it takes and room for them, and an event or SCO packet is no longer than
  the chunk.
* `contained_iff` — so it is for the whole loop, if besides no round leaves everything as it was.
-/

namespace TcBle.HciTransport

/-- Something that the handler touches. -/
inductive H4Access
  /-- `n` bytes of the chunk, from `pos` on. -/
  | chunk (pos n : ℕ)
  /-- `n` bytes of the backup buffer, from `pos` on. -/
  | backUp (pos n : ℕ)
  /-- `len -= n`. -/
  | take (len n : ℕ)

/-- The access stays inside a chunk of `chunkLen` bytes and a backup buffer of `bufSize` bytes. -/
def H4Access.Inside (chunkLen bufSize : ℕ) : H4Access → Prop
  | .chunk pos n => pos + n ≤ chunkLen
  | .backUp pos n => pos + n ≤ bufSize
  | .take len n => n ≤ len

/-- The loop of `HCI_Tr_H4RxHandler` at the start of a round: where `pPacket` is in the chunk,
`len`, and the control block. -/
structure H4Round where
  /-- `pPacket`. -/
  pos : ℕ
  /-- `len`. -/
  len : ℕ
  /-- The control block. -/
  e : H4Tr

namespace H4Tr

/-- What `HCI_Tr_H4BackUpHandler` touches from a complete header on. -/
def backUpPacketAccesses (head : H4Head) (p : Mem) (pos len : ℕ) (e : H4Tr) : List H4Access :=
  let pktLen := head.pktLen e.backUpBuf
  let n := min ((pktLen + 2 ^ 16 - e.backupCnt) % 2 ^ 16) len
  let cnt := (e.backUp (adv p pos) n).backupCnt
  [.backUp 3 (head.headLen - 2), .chunk pos n, .backUp e.backupCnt n] ++
    if cnt = pktLen then [.backUp 0 cnt] else []

/-- What `HCI_Tr_H4BackUpHandler` touches. -/
def backUpHandlerAccesses (p : Mem) (pos len : ℕ) (e : H4Tr) : List H4Access :=
  if e.backupCnt = 0 then [.chunk pos len, .backUp 0 len]
  else
    .backUp 0 1 ::
      match h4Head (e.backUpBuf 0) with
      | some head =>
        if 1 + head.headLen ≤ e.backupCnt then e.backUpPacketAccesses head p pos len
        else if 1 + head.headLen ≤ (e.backupCnt + len) % 2 ^ 32 then
          let cpyLen := 1 + head.headLen - e.backupCnt
          [.chunk pos cpyLen, .backUp e.backupCnt cpyLen, .take len cpyLen] ++
            (e.backUp (adv p pos) cpyLen).backUpPacketAccesses head p (pos + cpyLen)
            (subU32 len cpyLen)
        else [.chunk pos len, .backUp e.backupCnt len]
      | none => []

/-- What the rest of a round touches. -/
def packetAccesses (p : Mem) (pos len : ℕ) (e : H4Tr) : List H4Access :=
  .chunk pos 1 ::
    match h4Head (p pos) with
    | some head =>
      if len < 1 + head.headLen then e.backUpHandlerAccesses p pos len
      else
        let pktLen := head.pktLen (adv p pos) % 2 ^ 16
        .chunk (pos + 3) (head.headLen - 2) ::
          if pktLen ≠ 0 ∧ pktLen ≤ len then [.chunk pos pktLen, .take len pktLen]
          else if pktLen ≠ 0 ∧ len < pktLen then e.backUpHandlerAccesses p pos len
          else []
    | none =>
      if p pos = hciTrTypeEvent then
        if len < 1 + hciEvtHeadLen then []
        else [.chunk (pos + 2) 1, .take len (1 + hciEvtHeadLen + (p (pos + 2)).toNat)]
      else if p pos = hciTrTypeSco then
        if len < 1 + hciScoHeadLen then []
        else [.chunk (pos + 3) 1, .take len (1 + hciScoHeadLen + (p (pos + 3)).toNat)]
      else []

end H4Tr

namespace H4Round

variable (p : Mem) (now : UInt32)

/-- After the first part of a round, which completes the packet in the backup buffer. -/
def afterBackUp (s : H4Round) : H4Round :=
  let r := s.e.backUpFirst (adv p s.pos) s.len now
  ⟨s.pos + r.2, subU32 s.len r.2, r.1⟩

/-- A round: the loop ends with a control block, or goes on. -/
def round (s : H4Round) : H4Tr ⊕ H4Round :=
  let a := s.afterBackUp p now
  H4Tr.rxPacket .inl (fun n len e => .inr ⟨a.pos + n, len, e⟩) (adv p a.pos) a.len now a.e

/-- What a round touches. -/
def accesses (s : H4Round) : List H4Access :=
  (if s.e.backupCnt ≠ 0 then
    s.e.backUpHandlerAccesses p s.pos s.len ++
      [.take s.len (s.e.backUpFirst (adv p s.pos) s.len now).2]
  else []) ++
    (s.afterBackUp p now).e.packetAccesses p (s.afterBackUp p now).pos (s.afterBackUp p now).len

/-- The loop goes on from one round to the next. -/
def Next (s s' : H4Round) : Prop := s.len ≠ 0 ∧ s.round p now = .inr s'

/-- The rounds that a loop comes to. -/
abbrev Comes : H4Round → H4Round → Prop := Relation.ReflTransGen (Next p now)

end H4Round

namespace H4Tr

/-- The call of the handler for `len` bytes at `p` ends, and stays inside the chunk and the backup
buffer. -/
structure Contained (bufSize : ℕ) (p : Mem) (len : ℕ) (now : UInt32) (e : H4Tr) : Prop where
  /-- The loop ends. -/
  ends : ∃ fuel e', e.hciTrH4RxHandler fuel p len now = some e'
  /-- The accesses of every round. -/
  inside : ∀ s, H4Round.Comes p now ⟨0, len, e.flushHandler now⟩ s → s.len ≠ 0 →
    ∀ a ∈ s.accesses p now, a.Inside len bufSize

/-- The control blocks that calls lead to, as long as they stay inside. -/
inductive Reachable (bufSize : ℕ) : H4Tr → Prop
  /-- At the start. -/
  | init (buf : Mem) : Reachable bufSize (hciTrH4Init buf)
  /-- After one more chunk. -/
  | receive {e e' : H4Tr} {p : Mem} {len fuel : ℕ} {now : UInt32} (h : Reachable bufSize e)
      (hlen : len + 4 ≤ bufSize) (hcont : e.Contained bufSize p len now)
      (heq : e.hciTrH4RxHandler fuel p len now = some e') : Reachable bufSize e'

/-! ### The condition -/

/-- The header of the packet in the backup buffer, completed with the bytes at `q`. -/
def header (head : H4Head) (e : H4Tr) (q : Mem) : Mem :=
  memcpy e.backUpBuf e.backupCnt (bytes q (1 + head.headLen - e.backupCnt))

/-- How many bytes the packet in the backup buffer lacks, when it goes on at `q`. -/
def lacks (e : H4Tr) (q : Mem) : ℕ :=
  match h4Head (e.backUpBuf 0) with
  | some head => head.pktLen (e.header head q) - e.backupCnt
  | none => 0

/-- What comes of the packet in the backup buffer has room there. -/
def RoomFor (bufSize : ℕ) (q : Mem) (len : ℕ) (e : H4Tr) : Prop :=
  e.backupCnt ≠ 0 → e.backupCnt + min (e.lacks q) len ≤ bufSize

/-- The packet in the backup buffer leaves something of a chunk of `chunkLen` bytes, of which it
takes no more than the `len` from `pos` on; how many it takes is counted in eight bits. -/
def Leaves (chunkLen pos : ℕ) (q : Mem) (len : ℕ) (e : H4Tr) : Prop :=
  e.backupCnt ≠ 0 → pos + min (e.lacks q) len % 2 ^ 8 < chunkLen

/-- The packet at `q` is not complete, and goes to the backup buffer. -/
def Keeps (q : Mem) (len : ℕ) : Prop :=
  ∃ head, h4Head (q 0) = some head ∧ (len < 1 + head.headLen ∨ len < head.pktLen q % 2 ^ 16)

/-- An event or an SCO packet at `q` is no longer than what is left. -/
def SkipFits (q : Mem) (len : ℕ) : Prop :=
  (q 0 = hciTrTypeEvent → 1 + hciEvtHeadLen ≤ len → 1 + hciEvtHeadLen + (q 2).toNat ≤ len) ∧
    (q 0 = hciTrTypeSco → 1 + hciScoHeadLen ≤ len → 1 + hciScoHeadLen + (q 3).toNat ≤ len)

/-- The packet at `q` has a length that is `0` in sixteen bits. -/
def NoLength (q : Mem) (len : ℕ) : Prop :=
  ∃ head, h4Head (q 0) = some head ∧ 1 + head.headLen ≤ len ∧ head.pktLen q % 2 ^ 16 = 0

end H4Tr

namespace H4Round

variable (p : Mem) (now : UInt32)

/-- The accesses of the round stay inside. -/
structure Fits (chunkLen bufSize : ℕ) (s : H4Round) : Prop where
  /-- The packet in the backup buffer does not take all of the chunk. -/
  leaves : s.e.Leaves chunkLen s.pos (adv p s.pos) s.len
  /-- It has room there. -/
  room : s.e.RoomFor bufSize (adv p s.pos) s.len
  /-- So has what the round leaves for the next chunk. -/
  keeps : H4Tr.Keeps (adv p (s.afterBackUp p now).pos) (s.afterBackUp p now).len →
    (s.afterBackUp p now).e.RoomFor bufSize (adv p (s.afterBackUp p now).pos)
    (s.afterBackUp p now).len
  /-- An event or an SCO packet is all there. -/
  skips : H4Tr.SkipFits (adv p (s.afterBackUp p now).pos) (s.afterBackUp p now).len

/-- The round takes nothing from `len`. -/
def Stuck (s : H4Round) : Prop :=
  (s.afterBackUp p now).len = s.len ∧ H4Tr.NoLength (adv p (s.afterBackUp p now).pos)
  (s.afterBackUp p now).len

end H4Round

/-! ### What the backup handler does -/

theorem h4Head_cases {b : UInt8} {head : H4Head} (h : h4Head b = some head) :
    head = h4CmdHead ∨ head = h4AclHead := by
  unfold h4Head at h
  split_ifs at h
  · exact Or.inl (Option.some.inj h).symm
  · exact Or.inr (Option.some.inj h).symm

/-- What is known of the header of either kind of packet. -/
theorem h4Head_bounds {b : UInt8} {head : H4Head} (h : h4Head b = some head) :
    2 ≤ head.headLen ∧ head.headLen ≤ 4 ∧ ∀ q, 1 + head.headLen ≤ head.pktLen q ∧
      head.pktLen q < 1 + head.headLen + 2 ^ 16 := by
  rcases h4Head_cases h with rfl | rfl
  · refine ⟨by decide, by decide, fun q => ?_⟩
    have := (q 3).toNat_lt
    simp only [H4Head.pktLen, h4CmdHead]
    omega
  · refine ⟨by decide, by decide, fun q => ?_⟩
    have h₀ := (adv q 3 0).toNat_lt
    have h₁ := (adv q 3 1).toNat_lt
    simp only [H4Head.pktLen, h4AclHead, u16At]
    omega

/-- The length of a packet stands in its header. -/
theorem h4Head_congr {b : UInt8} {head : H4Head} (h : h4Head b = some head) {p q : Mem}
    (hpq : ∀ i < 1 + head.headLen, p i = q i) : head.pktLen p = head.pktLen q := by
  rcases h4Head_cases h with rfl | rfl
  · simp only [H4Head.pktLen, h4CmdHead, hpq 3 (by decide)]
  · simp only [H4Head.pktLen, h4AclHead, u16At, adv, hpq (0 + 3) (by decide),
      hpq (1 + 3) (by decide)]

namespace H4Tr

variable {bufSize chunkLen : ℕ} {e : H4Tr} {head : H4Head} {q : Mem} {len : ℕ}

/-- **What the control block is like** between two rounds. -/
structure Sound (e : H4Tr) : Prop where
  /-- The counter has eight bits. -/
  lt : e.backupCnt < 2 ^ 8
  /-- The packet in the backup buffer is of a type that is kept there, and not complete. -/
  head : e.backupCnt ≠ 0 → ∃ head, h4Head (e.backUpBuf 0) = some head ∧
    (1 + head.headLen ≤ e.backupCnt → e.backupCnt ≤ head.pktLen e.backUpBuf)

theorem lacks_eq (hhead : h4Head (e.backUpBuf 0) = some head) (q : Mem) :
    e.lacks q = head.pktLen (e.header head q) - e.backupCnt := by
  unfold lacks
  rw [hhead]

/-- A header that is complete. -/
theorem header_of_le (h : 1 + head.headLen ≤ e.backupCnt) (q : Mem) :
    e.header head q = e.backUpBuf := by
  funext i
  unfold header
  rw [Nat.sub_eq_zero_of_le h, memcpy]
  split_ifs <;> rfl

/-- The header is completed from the chunk. -/
theorem backUp_header (hhead : h4Head (e.backUpBuf 0) = some head) (hc : e.backupCnt ≠ 0)
    (hshort : ¬1 + head.headLen ≤ e.backupCnt) (q : Mem) :
    (e.backUp q (1 + head.headLen - e.backupCnt)).backUpBuf = e.header head q ∧
      (e.backUp q (1 + head.headLen - e.backupCnt)).backupCnt = 1 + head.headLen ∧
      h4Head (e.header head q 0) = some head := by
  have := (h4Head_bounds hhead).2.1
  refine ⟨rfl, ?_, ?_⟩
  · simp only [backUp]
    omega
  · rw [← hhead]
    exact congrArg h4Head (memcpy_of_outside _ (.inl (by omega)))

/-- The rest of a packet whose header is in the backup buffer. -/
theorem backUpPacket_spec (hhead : h4Head (e.backUpBuf 0) = some head)
    (hc : 1 + head.headLen ≤ e.backupCnt)
    (hlt : e.backupCnt < 2 ^ 8) (hle : e.backupCnt ≤ head.pktLen e.backUpBuf) (q : Mem) (len : ℕ)
      (now : UInt32) :
    ∃ e', e.backUpPacket head q len now = (e', min (head.pktLen e.backUpBuf - e.backupCnt) len) ∧
      (∀ i < e.backupCnt, e'.backUpBuf i = e.backUpBuf i) ∧
      (e'.backupCnt = 0 ∨ e'.backupCnt =
        (e.backupCnt + min (head.pktLen e.backUpBuf - e.backupCnt) len) % 2 ^ 8) ∧
      e'.backupCnt ≤ head.pktLen e.backUpBuf := by
  have hbound := ((h4Head_bounds hhead).2.2 e.backUpBuf).2
  have hcpy : (head.pktLen e.backUpBuf + 2 ^ 16 - e.backupCnt) % 2 ^ 16 =
    head.pktLen e.backUpBuf - e.backupCnt := by
    omega
  unfold backUpPacket
  simp only [hcpy]
  refine ⟨_, rfl, ?_⟩
  split_ifs with hfull
  · exact ⟨fun i hi => memcpy_of_outside _ (.inl hi), Or.inl rfl, Nat.zero_le _⟩
  · refine ⟨fun i hi => memcpy_of_outside _ (.inl hi), Or.inr rfl, ?_⟩
    simp only [timerEnable, backUp]
    omega

/-- **The backup handler**, when it holds the start of a packet: how many bytes it takes, and what
it holds then. -/
theorem backUpHandler_spec (h : e.Sound) (hc : e.backupCnt ≠ 0) (q : Mem)
    (hlen : len + 2 ^ 8 ≤ 2 ^ 32) (now : UInt32) :
    ∃ e', e.hciTrH4BackUpHandler q len now = (e', min (e.lacks q) len % 2 ^ 16) ∧ e'.Sound ∧
      (∀ i < e.backupCnt, e'.backUpBuf i = e.backUpBuf i) ∧
      (e'.backupCnt = 0 ∨ e'.backupCnt = (e.backupCnt + min (e.lacks q) len) % 2 ^ 8) := by
  obtain ⟨head, hhead, hpkt⟩ := h.head hc
  have hlt := h.lt
  obtain ⟨htwo, hfour, hbounds⟩ := h4Head_bounds hhead
  rw [lacks_eq hhead]
  unfold hciTrH4BackUpHandler
  rw [if_neg hc, hhead]
  simp only
  by_cases hfull : 1 + head.headLen ≤ e.backupCnt
  · rw [if_pos hfull]
    rw [header_of_le hfull]
    obtain ⟨e', heq, hbuf, hcnt, hle⟩ := backUpPacket_spec hhead hfull hlt (hpkt hfull) q len now
    have hmod : min (head.pktLen e.backUpBuf - e.backupCnt) len % 2 ^ 16 =
        min (head.pktLen e.backUpBuf - e.backupCnt) len := by
      have := (hbounds e.backUpBuf).2
      omega
    rw [hmod]
    refine ⟨e', heq, ⟨by omega, fun _ => ⟨head, ?_, fun _ => ?_⟩⟩, hbuf, hcnt⟩
    · rw [hbuf 0 (by omega), hhead]
    · rw [h4Head_congr hhead fun i hi => hbuf i (by omega)]
      exact hle
  · rw [if_neg hfull]
    have hpktLen := (hbounds (e.header head q)).1
    by_cases hreach : 1 + head.headLen ≤ e.backupCnt + len
    · -- the header is completed first
      rw [if_pos (by omega)]
      obtain ⟨hbuf₁, hcnt₁, hhead₁⟩ := backUp_header hhead hc hfull q
      generalize hcpy : 1 + head.headLen - e.backupCnt = cpyLen at hbuf₁ hcnt₁
      obtain ⟨e', heq, hbuf, hcnt, hle⟩ :=
        backUpPacket_spec (hbuf₁ ▸ hhead₁) (le_of_eq hcnt₁.symm) (by omega)
        (by rw [hcnt₁, hbuf₁]; exact hpktLen) (adv q cpyLen) (subU32 len cpyLen) now
      rw [hbuf₁, hcnt₁, subU32_of_le (show cpyLen ≤ len by omega) (by omega)] at heq hcnt
      rw [hbuf₁] at hbuf hle
      rw [hcnt₁] at hbuf
      have hsum : cpyLen + min (head.pktLen (e.header head q) - (1 + head.headLen)) (len - cpyLen) =
          min (head.pktLen (e.header head q) - e.backupCnt) len := by omega
      refine ⟨e', ?_, ⟨by omega, fun _ => ⟨head, ?_, fun _ => ?_⟩⟩, fun i hi => ?_, ?_⟩
      · rw [subU32_of_le (show cpyLen ≤ len by omega) (by omega), heq]
        simp only
        rw [hsum]
      · rw [hbuf 0 (by omega), hhead₁]
      · rw [h4Head_congr hhead hbuf]
        exact hle
      · rw [hbuf i (by omega)]
        exact memcpy_of_outside _ (.inl hi)
      · omega
    · rw [if_neg (by omega)]
      have hmin : min (head.pktLen (e.header head q) - e.backupCnt) len = len := by omega
      rw [hmin]
      have hcnt : ((e.backUp q len).timerEnable now).backupCnt = e.backupCnt + len := by
        simp only [timerEnable, backUp]
        omega
      refine ⟨(e.backUp q len).timerEnable now, ?_,
        ⟨by omega, fun _ => ⟨head, ?_, fun hlong => ?_⟩⟩,
        fun i hi => memcpy_of_outside _ (.inl hi), Or.inr rfl⟩
      · rw [Nat.mod_eq_of_lt (by omega)]
      · rw [← hhead]
        exact congrArg h4Head (memcpy_of_outside _ (.inl (by omega)))
      · omega

/-- What a packet lacks is decided by the bytes that are there. -/
theorem lacks_congr {e' : H4Tr} (hc : e.backupCnt ≠ 0) (hcnt : e'.backupCnt = e.backupCnt)
    (hbuf : ∀ i < e.backupCnt, e'.backUpBuf i = e.backUpBuf i) (q : Mem) :
    e'.lacks q = e.lacks q := by
  unfold lacks
  rw [hbuf 0 (by omega), hcnt]
  cases hhead : h4Head (e.backUpBuf 0) with
  | none => rfl
  | some head =>
    refine congrArg (· - e.backupCnt) (h4Head_congr hhead fun i hi => ?_)
    unfold header
    rw [hcnt]
    by_cases hlt : i < e.backupCnt
    · rw [memcpy_of_outside _ (.inl hlt), memcpy_of_outside _ (.inl hlt), hbuf i hlt]
    · have hin : e.backupCnt ≤ i ∧ i < e.backupCnt + (1 + head.headLen - e.backupCnt) := by omega
      rw [memcpy_bytes_apply, memcpy_bytes_apply, if_pos hin, if_pos hin]

/-- A packet that is not complete is kept. -/
theorem Sound.keep (h : e.Sound) (hkeep : Keeps q len) (hlen : len + 2 ^ 8 ≤ 2 ^ 32)
    (now : UInt32) :
    (e.hciTrH4BackUpHandler q len now).1.Sound := by
  by_cases hc : e.backupCnt = 0
  · obtain ⟨head, hhead, hshort⟩ := hkeep
    rw [hciTrH4BackUpHandler, if_pos hc]
    have hbuf : ∀ i < len, (e.backUp q len).backUpBuf i = q i := by
      intro i hi
      simp only [backUp, hc]
      exact (memcpy_bytes_apply _ _ _ _ _).trans (if_pos ⟨Nat.zero_le i, by omega⟩)
    have hcnt : (e.backUp q len).backupCnt = len % 2 ^ 8 := by
      simp only [backUp, hc, Nat.zero_add]
    refine ⟨?_, fun hne => ⟨head, ?_, fun hlong => ?_⟩⟩
    · simp only [timerEnable, hcnt]
      omega
    · simp only [timerEnable, hcnt] at hne ⊢
      rw [hbuf 0 (by omega), hhead]
    · simp only [timerEnable, hcnt] at hlong ⊢
      rw [h4Head_congr hhead fun i hi => hbuf i (by omega)]
      omega
  · obtain ⟨e', heq, hsound, -, -⟩ := backUpHandler_spec h hc q hlen now
    rw [heq]
    exact hsound

theorem Sound.flush (h : e.Sound) (now : UInt32) : (e.flushHandler now).Sound := by
  unfold flushHandler
  split_ifs
  · exact ⟨Nat.two_pow_pos 8, fun hc => absurd rfl hc⟩
  · exact h

/-- The rest of a round, seen through a function. -/
theorem rxPacket_map {α β : Type} (f : α → β) (stop : H4Tr → α) (goOn : ℕ → ℕ → H4Tr → α) (q : Mem)
    (len : ℕ)
    (now : UInt32) (e : H4Tr) : f (rxPacket stop goOn q len now e) =
      rxPacket (fun e => f (stop e)) (fun n l e => f (goOn n l e)) q len now e := by
  unfold rxPacket
  cases h4Head (q 0) with
  | some head =>
    simp only
    split_ifs <;> rfl
  | none =>
    simp only
    split_ifs <;> rfl

/-! ### Accesses -/

variable {p : Mem} {pos : ℕ}

/-- The rest of a packet: the access that counts is the copy to the backup buffer. -/
theorem backUpPacketAccesses_inside (hhead : h4Head (e.backUpBuf 0) = some head)
    (hc : 1 + head.headLen ≤ e.backupCnt) (hle : e.backupCnt ≤ head.pktLen e.backUpBuf)
    (hpos : pos + len ≤ chunkLen) (hsize : 5 ≤ bufSize) :
    (∀ a ∈ e.backUpPacketAccesses head p pos len, a.Inside chunkLen bufSize) ↔
      e.backupCnt + min (head.pktLen e.backUpBuf - e.backupCnt) len ≤ bufSize := by
  obtain ⟨htwo, hfour, hbounds⟩ := h4Head_bounds hhead
  have hbound := (hbounds e.backUpBuf).2
  have hcpy : (head.pktLen e.backUpBuf + 2 ^ 16 - e.backupCnt) % 2 ^ 16 =
    head.pktLen e.backUpBuf - e.backupCnt := by
    omega
  have hn : min (head.pktLen e.backUpBuf - e.backupCnt) len ≤ len := Nat.min_le_right _ _
  unfold backUpPacketAccesses
  simp only [hcpy]
  generalize min (head.pktLen e.backUpBuf - e.backupCnt) len = n at hn
  have hcnt : (e.backUp (adv p pos) n).backupCnt ≤ e.backupCnt + n := Nat.mod_le _ _
  constructor
  · intro h
    exact h (.backUp e.backupCnt n) (by simp)
  · intro h a ha
    simp only [List.cons_append, List.nil_append, List.mem_cons] at ha
    rcases ha with rfl | rfl | rfl | ha
    · simp only [H4Access.Inside]
      omega
    · simp only [H4Access.Inside]
      omega
    · exact h
    · split_ifs at ha
      · obtain rfl := List.mem_singleton.mp ha
        simp only [H4Access.Inside]
        omega
      · simp at ha

/-- **The accesses of the backup handler** stay inside exactly when there is room for what it
takes. -/
theorem backUpHandlerAccesses_inside (h : e.Sound) (hpos : pos + len ≤ chunkLen)
    (hchunk : chunkLen ≤ bufSize)
    (hlen : len + 2 ^ 8 ≤ 2 ^ 32) (hsize : 5 ≤ bufSize) :
    (∀ a ∈ e.backUpHandlerAccesses p pos len, a.Inside chunkLen bufSize) ↔
      e.RoomFor bufSize (adv p pos) len := by
  unfold RoomFor backUpHandlerAccesses
  by_cases hc : e.backupCnt = 0
  · rw [if_pos hc]
    refine ⟨fun _ hc' => absurd hc hc', fun _ a ha => ?_⟩
    simp only [List.mem_cons, List.not_mem_nil, or_false] at ha
    rcases ha with rfl | rfl
    · exact hpos
    · simp only [H4Access.Inside]
      omega
  · obtain ⟨head, hhead, hpkt⟩ := h.head hc
    have hlt := h.lt
    obtain ⟨htwo, hfour, hbounds⟩ := h4Head_bounds hhead
    rw [if_neg hc, hhead, lacks_eq hhead]
    simp only [List.forall_mem_cons, ne_eq, hc, not_false_eq_true, forall_true_left]
    have hfirst : (H4Access.backUp 0 1).Inside chunkLen bufSize := by
      simp only [H4Access.Inside]
      omega
    simp only [hfirst, true_and]
    by_cases hfull : 1 + head.headLen ≤ e.backupCnt
    · rw [if_pos hfull]
      rw [backUpPacketAccesses_inside hhead hfull (hpkt hfull) hpos hsize]
      rw [show e.header head (adv p pos) = e.backUpBuf from header_of_le hfull _]
    · rw [if_neg hfull]
      have hpktLen := (hbounds (e.header head (adv p pos))).1
      by_cases hreach : 1 + head.headLen ≤ e.backupCnt + len
      · rw [if_pos (by omega)]
        obtain ⟨hbuf₁, hcnt₁, hhead₁⟩ := backUp_header hhead hc hfull (adv p pos)
        generalize hcpy : 1 + head.headLen - e.backupCnt = cpyLen at hbuf₁ hcnt₁
        rw [subU32_of_le (show cpyLen ≤ len by omega) (by omega)]
        have hrest := backUpPacketAccesses_inside (p := p) (hbuf₁ ▸ hhead₁) (le_of_eq hcnt₁.symm)
          (by rw [hcnt₁, hbuf₁]; exact hpktLen)
          (show pos + cpyLen + (len - cpyLen) ≤ chunkLen by omega) hsize
        rw [hbuf₁, hcnt₁] at hrest
        have hheads : ∀ a ∈ [H4Access.chunk pos cpyLen, .backUp e.backupCnt cpyLen,
          .take len cpyLen],
            a.Inside chunkLen bufSize := by
          simp only [List.forall_mem_cons, H4Access.Inside]
          exact ⟨by omega, by omega, by omega, by simp⟩
        rw [List.forall_mem_append, hrest]
        have hsum : e.backupCnt + min (head.pktLen (e.header head (adv p pos)) - e.backupCnt) len =
          1 + head.headLen +
            min (head.pktLen (e.header head (adv p pos)) - (1 + head.headLen)) (len - cpyLen) := by
              omega
        rw [hsum]
        exact and_iff_right hheads
      · rw [if_neg (by omega)]
        simp only [List.forall_mem_cons, H4Access.Inside]
        exact ⟨fun _ => by omega, fun _ => ⟨by omega, by omega, by simp⟩⟩

/-- An event or an SCO packet. -/
theorem skipAccesses_inside (hpos : pos + len ≤ chunkLen) {headLen k n : ℕ} (hk : k < 1 + headLen) :
    (∀ a ∈ if len < 1 + headLen then [] else [H4Access.chunk (pos + k) 1, .take len n],
      a.Inside chunkLen bufSize) ↔ (1 + headLen ≤ len → n ≤ len) := by
  by_cases hshort : len < 1 + headLen
  · rw [if_pos hshort]
    exact ⟨fun _ hle => absurd hle (not_le.mpr hshort), fun _ => by simp⟩
  · rw [if_neg hshort]
    simp only [List.forall_mem_cons, H4Access.Inside]
    exact ⟨fun hall _ => hall.2.1, fun hfit => ⟨by omega, hfit (not_lt.mp hshort), by simp⟩⟩

/-- **The accesses of the rest of a round.** -/
theorem packetAccesses_inside (h : e.Sound) (hpos : pos + len ≤ chunkLen)
    (hchunk : chunkLen ≤ bufSize)
    (hlen : len + 2 ^ 8 ≤ 2 ^ 32) (hsize : 5 ≤ bufSize) :
    (∀ a ∈ e.packetAccesses p pos len, a.Inside chunkLen bufSize) ↔ pos < chunkLen ∧
      (Keeps (adv p pos) len → e.RoomFor bufSize (adv p pos) len) ∧ SkipFits (adv p pos) len := by
  have hadv : adv p pos 0 = p pos := congrArg p (Nat.zero_add pos)
  have hback := backUpHandlerAccesses_inside (p := p) h hpos hchunk hlen hsize
  unfold packetAccesses
  rw [List.forall_mem_cons]
  refine and_congr Iff.rfl ?_
  unfold Keeps SkipFits
  rw [hadv]
  cases hhead : h4Head (p pos) with
  | some head =>
    obtain ⟨htwo, hfour, hbounds⟩ := h4Head_bounds hhead
    have hskip : p pos ≠ hciTrTypeEvent ∧ p pos ≠ hciTrTypeSco := by
      constructor <;> intro htype <;> rw [htype] at hhead <;> exact absurd hhead nofun
    simp only [hskip.1, hskip.2, false_imp_iff, and_true, Option.some.injEq, exists_eq_left']
    by_cases hshort : len < 1 + head.headLen
    · rw [if_pos hshort, hback]
      exact ⟨fun hroom _ => hroom, fun hroom => hroom (Or.inl hshort)⟩
    · rw [if_neg hshort, List.forall_mem_cons]
      have hparam : (H4Access.chunk (pos + 3) (head.headLen - 2)).Inside chunkLen bufSize := by
        simp only [H4Access.Inside]
        omega
      rw [and_iff_right hparam]
      by_cases hwhole : head.pktLen (adv p pos) % 2 ^ 16 ≠ 0 ∧
        head.pktLen (adv p pos) % 2 ^ 16 ≤ len
      · rw [if_pos hwhole]
        refine ⟨fun _ hkeep => ?_, fun _ => ?_⟩
        · omega
        · simp only [List.forall_mem_cons, H4Access.Inside]
          exact ⟨by omega, hwhole.2, by simp⟩
      · rw [if_neg hwhole]
        by_cases hcut : head.pktLen (adv p pos) % 2 ^ 16 ≠ 0 ∧
          len < head.pktLen (adv p pos) % 2 ^ 16
        · rw [if_pos hcut, hback]
          exact ⟨fun hroom _ => hroom, fun hroom => hroom (Or.inr hcut.2)⟩
        · rw [if_neg hcut]
          exact ⟨fun _ hkeep => by omega, fun _ => by simp⟩
  | none =>
    have htwo : adv p pos 2 = p (pos + 2) := congrArg p (Nat.add_comm 2 pos)
    have hthree : adv p pos 3 = p (pos + 3) := congrArg p (Nat.add_comm 3 pos)
    simp only [reduceCtorEq, false_and, exists_false, false_imp_iff, true_and, htwo, hthree]
    by_cases hevent : p pos = hciTrTypeEvent
    · have hsco : p pos ≠ hciTrTypeSco := by
        rw [hevent]
        decide
      rw [if_pos hevent, skipAccesses_inside hpos (show 2 < 1 + hciEvtHeadLen by decide)]
      exact ⟨fun hfit => ⟨fun _ => hfit, fun htype => absurd htype hsco⟩, fun hfit => hfit.1 hevent⟩
    · rw [if_neg hevent]
      by_cases hsco : p pos = hciTrTypeSco
      · rw [if_pos hsco, skipAccesses_inside hpos (show 3 < 1 + hciScoHeadLen by decide)]
        exact ⟨fun hfit => ⟨fun htype => absurd htype hevent, fun _ => hfit⟩,
          fun hfit => hfit.2 hsco⟩
      · rw [if_neg hsco]
        exact ⟨fun _ => ⟨fun htype => absurd htype hevent, fun htype => absurd htype hsco⟩,
          fun _ => by simp⟩

end H4Tr

namespace H4Round

variable {p : Mem} {now : UInt32} {chunkLen bufSize : ℕ} {s s' : H4Round}

/-- **What holds between two rounds**: `pPacket` and `len` stay inside the chunk. -/
structure Ok (chunkLen : ℕ) (s : H4Round) : Prop where
  /-- The bytes left are in the chunk. -/
  le : s.pos + s.len ≤ chunkLen
  /-- The control block. -/
  sound : s.e.Sound

/-- **The first part of a round** moves on by what it takes. -/
theorem Ok.afterBackUp (h : s.Ok chunkLen) (hlen : chunkLen + 2 ^ 8 ≤ 2 ^ 32) (p : Mem)
    (now : UInt32) :
    ∃ n e', s.afterBackUp p now = ⟨s.pos + n, s.len - n, e'⟩ ∧ n ≤ s.len ∧ e'.Sound ∧
      s.e.backUpFirst (adv p s.pos) s.len now = (e', n) ∧ (s.e.backupCnt = 0 → n = 0 ∧ e' = s.e) ∧
      (s.e.backupCnt ≠ 0 → n = min (s.e.lacks (adv p s.pos)) s.len % 2 ^ 8 ∧
        e' = (s.e.hciTrH4BackUpHandler (adv p s.pos) s.len now).1) := by
  have hle := h.le
  have hfirst : ∃ n e', s.e.backUpFirst (adv p s.pos) s.len now = (e', n) ∧ n ≤ s.len ∧ e'.Sound ∧
      (s.e.backupCnt = 0 → n = 0 ∧ e' = s.e) ∧
      (s.e.backupCnt ≠ 0 → n = min (s.e.lacks (adv p s.pos)) s.len % 2 ^ 8 ∧
        e' = (s.e.hciTrH4BackUpHandler (adv p s.pos) s.len now).1) := by
    by_cases hc : s.e.backupCnt = 0
    · exact ⟨0, s.e, if_neg (not_not.mpr hc), Nat.zero_le _, h.sound, fun _ => ⟨rfl, rfl⟩,
        fun hc' => absurd hc hc'⟩
    · obtain ⟨e', heq, hsound, -, -⟩ := H4Tr.backUpHandler_spec h.sound hc (adv p s.pos)
        (show s.len + 2 ^ 8 ≤ 2 ^ 32 by omega) now
      refine ⟨min (s.e.lacks (adv p s.pos)) s.len % 2 ^ 8, e', ?_, ?_, hsound,
        fun hc' => absurd hc' hc, fun _ => ⟨rfl, by rw [heq]⟩⟩
      · rw [H4Tr.backUpFirst, if_pos hc, heq]
        simp only [Prod.mk.injEq, true_and]
        omega
      · exact (Nat.mod_le _ _).trans (Nat.min_le_right _ _)
  obtain ⟨n, e', heq, hn, hsound, hzero, hpos⟩ := hfirst
  refine ⟨n, e', ?_, hn, hsound, heq, hzero, hpos⟩
  rw [H4Round.afterBackUp, heq]
  simp only
  rw [subU32_of_le hn (by omega)]

/-- **The accesses of a round stay inside** exactly when it fits. -/
theorem inside_iff (h : s.Ok chunkLen) (hlen : chunkLen + 2 ^ 8 ≤ 2 ^ 32)
    (hchunk : chunkLen ≤ bufSize)
    (hsize : 5 ≤ bufSize) (hne : s.len ≠ 0) :
    (∀ a ∈ s.accesses p now, a.Inside chunkLen bufSize) ↔ s.Fits p now chunkLen bufSize := by
  have hle := h.le
  obtain ⟨n, e', heq, hn, hsound, hfirst, hzero, hpos⟩ := h.afterBackUp hlen p now
  have hpacket := H4Tr.packetAccesses_inside (p := p) hsound
    (show s.pos + n + (s.len - n) ≤ chunkLen by omega) hchunk
    (show s.len - n + 2 ^ 8 ≤ 2 ^ 32 by omega) hsize
  have hback := H4Tr.backUpHandlerAccesses_inside (p := p) h.sound h.le hchunk
    (show s.len + 2 ^ 8 ≤ 2 ^ 32 by omega) hsize
  unfold accesses
  rw [List.forall_mem_append, heq, hpacket]
  by_cases hc : s.e.backupCnt = 0
  · rw [if_neg (not_not.mpr hc)]
    obtain ⟨rfl, -⟩ := hzero hc
    constructor
    · rintro ⟨-, -, hkeep, hskip⟩
      exact ⟨fun hc' => absurd hc hc', fun hc' => absurd hc hc', by rw [heq]; exact hkeep,
        by rw [heq]; exact hskip⟩
    · rintro ⟨-, -, hkeep, hskip⟩
      rw [heq] at hkeep hskip
      exact ⟨by simp, by omega, hkeep, hskip⟩
  · obtain ⟨hn', -⟩ := hpos hc
    have htake :
      (H4Access.take s.len
      (s.e.backUpFirst (adv p s.pos) s.len now).2).Inside chunkLen bufSize := by
      rw [hfirst]
      exact hn
    rw [if_pos hc, List.forall_mem_append, hback, List.forall_mem_singleton, and_iff_left htake]
    constructor
    · rintro ⟨hroom, hleft, hkeep, hskip⟩
      exact ⟨fun _ => by rw [← hn']; exact hleft, hroom, by rw [heq]; exact hkeep,
        by rw [heq]; exact hskip⟩
    · rintro ⟨hleaves, hroom, hkeep, hskip⟩
      rw [heq] at hkeep hskip
      have := hleaves hc
      rw [← hn'] at this
      exact ⟨hroom, this, hkeep, hskip⟩

/-- **From one round to the next.** -/
theorem Ok.next (h : s.Ok chunkLen) (hlen : chunkLen + 2 ^ 8 ≤ 2 ^ 32)
    (hfits : s.Fits p now chunkLen bufSize)
    (hnext : Next p now s s') :
    s'.Ok chunkLen ∧ s'.len ≤ s.len ∧ (s'.len = s.len → s.Stuck p now) := by
  have hle := h.le
  obtain ⟨n, e', heq, hn, hsound, hfirst, hzero, hpos⟩ := h.afterBackUp hlen p now
  obtain ⟨hne, hround⟩ := hnext
  have hskip := hfits.skips
  have hstuck : H4Tr.NoLength (adv p (s.pos + n)) (s.len - n) → n = 0 → s.Stuck p now := by
    rintro hno rfl
    rw [Stuck, heq]
    exact ⟨rfl, hno⟩
  rw [round, heq] at hround
  rw [heq] at hskip
  simp only at hround hskip
  unfold H4Tr.rxPacket at hround
  unfold H4Tr.SkipFits at hskip
  cases hhead : h4Head (adv p (s.pos + n) 0) with
  | some head =>
    rw [hhead] at hround
    simp only at hround
    split_ifs at hround with hshort hwhole hcut
    · obtain rfl := Sum.inr.inj hround
      rw [subU32_of_le hwhole.2 (by omega)]
      refine ⟨⟨by simp only; omega, { hsound with }⟩, by simp only; omega, fun hsame => ?_⟩
      simp only at hsame
      omega
    · obtain rfl := Sum.inr.inj hround
      refine ⟨⟨by simp only; omega, hsound⟩, by simp only; omega, fun hsame => ?_⟩
      simp only at hsame
      exact hstuck ⟨head, hhead, by omega, by omega⟩ (by omega)
  | none =>
    rw [hhead] at hround
    simp only at hround
    split_ifs at hround with hevent hshort hsco hshort
    · obtain rfl := Sum.inr.inj hround
      have hfit := hskip.1 hevent (not_lt.mp hshort)
      rw [subU32_of_le hfit (by omega)]
      refine ⟨⟨by simp only; omega, hsound⟩, by simp only; omega, fun hsame => ?_⟩
      simp only at hsame
      omega
    · obtain rfl := Sum.inr.inj hround
      have hfit := hskip.2 hsco (not_lt.mp hshort)
      rw [subU32_of_le hfit (by omega)]
      refine ⟨⟨by simp only; omega, hsound⟩, by simp only; omega, fun hsame => ?_⟩
      simp only at hsame
      omega

/-- What a round leaves when the loop ends with it. -/
theorem Ok.stop (h : s.Ok chunkLen) (hlen : chunkLen + 2 ^ 8 ≤ 2 ^ 32) {e' : H4Tr}
    (hround : s.round p now = .inl e') :
    e'.Sound := by
  have hle := h.le
  obtain ⟨n, e₁, heq, hn, hsound, -, -, -⟩ := h.afterBackUp hlen p now
  rw [round, heq] at hround
  simp only at hround
  unfold H4Tr.rxPacket at hround
  cases hhead : h4Head (adv p (s.pos + n) 0) with
  | some head =>
    rw [hhead] at hround
    simp only at hround
    split_ifs at hround with hshort hwhole hcut
    · obtain rfl := Sum.inl.inj hround
      exact hsound.keep ⟨head, hhead, Or.inl hshort⟩ (by omega) now
    · obtain rfl := Sum.inl.inj hround
      exact hsound.keep ⟨head, hhead, Or.inr hcut.2⟩ (by omega) now
  | none =>
    rw [hhead] at hround
    simp only at hround
    split_ifs at hround
    · exact Sum.inl.inj hround ▸ hsound
    · exact Sum.inl.inj hround ▸ hsound
    · exact Sum.inl.inj hround ▸ hsound

/-- **A round that takes nothing comes again and again.** -/
theorem Ok.stuck (h : s.Ok chunkLen) (hlen : chunkLen + 2 ^ 8 ≤ 2 ^ 32) (hne : s.len ≠ 0)
    (hstuck : s.Stuck p now) :
    ∃ s', s.round p now = .inr s' ∧ s'.Ok chunkLen ∧ s'.len ≠ 0 ∧ s'.Stuck p now := by
  have hle := h.le
  obtain ⟨n, e', heq, hn, hsound, -, hzero, hpos⟩ := h.afterBackUp hlen p now
  obtain ⟨hsame, hno⟩ := hstuck
  rw [heq] at hsame hno
  simp only at hsame hno
  obtain rfl : n = 0 := by omega
  rw [Nat.add_zero, Nat.sub_zero] at hno heq
  have hround : s.round p now = .inr ⟨s.pos, s.len, e'⟩ := by
    obtain ⟨head, hhead, hlong, hlength⟩ := hno
    rw [round, heq]
    simp only
    unfold H4Tr.rxPacket
    rw [hhead]
    simp only [hlength, ne_eq, not_true_eq_false, false_and, if_false, if_neg (not_lt.mpr hlong),
      Nat.add_zero]
  have hok : Ok chunkLen ⟨s.pos, s.len, e'⟩ := ⟨hle, hsound⟩
  refine ⟨_, hround, hok, hne, ?_⟩
  obtain ⟨m, e'', heq', hm, -, -, hzero', hpos'⟩ := hok.afterBackUp hlen p now
  simp only at heq' hm hzero' hpos'
  -- the packet in the backup buffer is completed the same way once more
  obtain rfl : m = 0 := by
    by_cases hc' : e'.backupCnt = 0
    · exact (hzero' hc').1
    · have hc : s.e.backupCnt ≠ 0 := fun hc => hc' ((hzero hc).2 ▸ hc)
      obtain ⟨hn', he'⟩ := hpos hc
      obtain ⟨e₁, heq₁, -, hbuf, hcnt⟩ := H4Tr.backUpHandler_spec h.sound hc (adv p s.pos)
        (show s.len + 2 ^ 8 ≤ 2 ^ 32 by omega) now
      rw [heq₁] at he'
      subst he'
      have hlt := h.sound.lt
      have hlacks := H4Tr.lacks_congr hc (by omega) hbuf (adv p s.pos)
      rw [(hpos' hc').1, hlacks, ← hn']
  rw [Stuck, heq']
  exact ⟨rfl, hno⟩

/-- The loop, one round. -/
theorem rxLoop_succ (fuel : ℕ) (s : H4Round) : H4Tr.rxLoop (fuel + 1) (adv p s.pos) s.len now s.e =
    if s.len = 0 then some s.e
    else
      match s.round p now with
      | .inl e => some e
      | .inr s' => H4Tr.rxLoop fuel (adv p s'.pos) s'.len now s'.e := by
  rw [H4Tr.rxLoop, round]
  by_cases hne : s.len = 0
  · rw [if_pos hne, if_pos hne]
  · rw [if_neg hne, if_neg hne]
    refine Eq.trans ?_ (H4Tr.rxPacket_map (α := H4Tr ⊕ H4Round) (fun r => match r with
      | .inl e => some e
      | .inr s' => H4Tr.rxLoop fuel (adv p s'.pos) s'.len now s'.e) _ _ _ _ _ _).symm
    simp only [afterBackUp, adv_adv]

/-- A loop that ends, ends from every round that it comes to. -/
theorem ends_of_comes (h : Comes p now s s') {fuel : ℕ} {e : H4Tr}
    (hend : H4Tr.rxLoop fuel (adv p s.pos) s.len now s.e = some e) :
    ∃ fuel, H4Tr.rxLoop fuel (adv p s'.pos) s'.len now s'.e = some e := by
  induction h with
  | refl => exact ⟨fuel, hend⟩
  | tail _ hnext ih =>
    obtain ⟨fuel, hend⟩ := ih
    cases fuel with
    | zero => exact absurd hend nofun
    | succ fuel =>
      rw [rxLoop_succ, if_neg hnext.1, hnext.2] at hend
      exact ⟨fuel, hend⟩

/-- A loop that is stuck does not end. -/
theorem Ok.not_ends (h : s.Ok chunkLen) (hlen : chunkLen + 2 ^ 8 ≤ 2 ^ 32) (hne : s.len ≠ 0)
    (hstuck : s.Stuck p now)
    (fuel : ℕ) : H4Tr.rxLoop fuel (adv p s.pos) s.len now s.e = none := by
  induction fuel generalizing s with
  | zero => rfl
  | succ fuel ih =>
    obtain ⟨s', hround, hok, hne', hstuck'⟩ := h.stuck hlen hne hstuck
    rw [rxLoop_succ, if_neg hne, hround]
    exact ih hok hne' hstuck'

/-- Rounds that fit stay inside the chunk. -/
theorem Ok.comes (h : s.Ok chunkLen) (hlen : chunkLen + 2 ^ 8 ≤ 2 ^ 32)
    (hfits : ∀ r, Comes p now s r → r.len ≠ 0 → r.Fits p now chunkLen bufSize)
    (hcomes : Comes p now s s') :
    s'.Ok chunkLen := by
  induction hcomes with
  | refl => exact h
  | tail hcomes hnext ih => exact (ih.next hlen (hfits _ hcomes hnext.1) hnext).1

/-- **Rounds that fit and take something** come to an end. -/
theorem Ok.ends (h : s.Ok chunkLen) (hlen : chunkLen + 2 ^ 8 ≤ 2 ^ 32)
    (hfits : ∀ r, Comes p now s r → r.len ≠ 0 → r.Fits p now chunkLen bufSize ∧ ¬ r.Stuck p now) :
    ∃ fuel e, H4Tr.rxLoop fuel (adv p s.pos) s.len now s.e = some e := by
  induction hn : s.len using Nat.strongRecOn generalizing s with
  | ind n ih =>
    subst hn
    by_cases hne : s.len = 0
    · exact ⟨1, s.e, by rw [rxLoop_succ, if_pos hne]⟩
    · cases hround : s.round p now with
      | inl e => exact ⟨1, e, by rw [rxLoop_succ, if_neg hne, hround]⟩
      | inr s' =>
        have hnext : Next p now s s' := ⟨hne, hround⟩
        obtain ⟨hfit, hmoves⟩ := hfits s .refl hne
        obtain ⟨hok, hle, hsame⟩ := h.next hlen hfit hnext
        have hlt : s'.len < s.len := lt_of_le_of_ne hle fun heq => hmoves (hsame heq)
        obtain ⟨fuel, e, hend⟩ := ih s'.len hlt hok (fun r hr => hfits r (.head hnext hr)) rfl
        exact ⟨fuel + 1, e, by rw [rxLoop_succ, if_neg hne, hround]; exact hend⟩

/-- What the loop leaves. -/
theorem Ok.sound_of_ends (h : s.Ok chunkLen) (hlen : chunkLen + 2 ^ 8 ≤ 2 ^ 32)
    (hfits : ∀ r, Comes p now s r → r.len ≠ 0 → r.Fits p now chunkLen bufSize) {fuel : ℕ} {e : H4Tr}
    (hend : H4Tr.rxLoop fuel (adv p s.pos) s.len now s.e = some e) : e.Sound := by
  induction fuel generalizing s with
  | zero => exact absurd hend nofun
  | succ fuel ih =>
    rw [rxLoop_succ] at hend
    by_cases hne : s.len = 0
    · rw [if_pos hne] at hend
      exact Option.some.inj hend ▸ h.sound
    · rw [if_neg hne] at hend
      cases hround : s.round p now with
      | inl e' =>
        rw [hround] at hend
        exact Option.some.inj hend ▸ h.stop hlen hround
      | inr s' =>
        rw [hround] at hend
        have hnext : Next p now s s' := ⟨hne, hround⟩
        exact ih (h.next hlen (hfits s .refl hne) hnext).1
          (fun r hr => hfits r (.head hnext hr)) hend

end H4Round

namespace H4Tr

variable {bufSize chunkLen len : ℕ} {e : H4Tr} {p : Mem} {now : UInt32}

/-- The call starts with a round that is in order. -/
theorem Sound.ok (h : e.Sound) (len : ℕ) (now : UInt32) :
    H4Round.Ok len ⟨0, len, e.flushHandler now⟩ :=
  ⟨(Nat.zero_add len).le, h.flush now⟩

/-- The rounds of a call that is contained fit. -/
theorem Contained.fits (hcont : e.Contained bufSize p len now) (h : e.Sound)
    (hlen : len + 2 ^ 8 ≤ 2 ^ 32)
    (hchunk : len ≤ bufSize) (hsize : 5 ≤ bufSize) {s : H4Round}
    (hcomes : H4Round.Comes p now ⟨0, len, e.flushHandler now⟩ s) :
    s.Ok len ∧ (s.len ≠ 0 → s.Fits p now len bufSize) := by
  have hok : s.Ok len := by
    induction hcomes with
    | refl => exact h.ok len now
    | tail hcomes hnext ih =>
      exact (ih.next hlen ((H4Round.inside_iff ih hlen hchunk hsize hnext.1).mp
        (hcont.inside _ hcomes hnext.1)) hnext).1
  exact ⟨hok, fun hne => (H4Round.inside_iff hok hlen hchunk hsize hne).mp
    (hcont.inside s hcomes hne)⟩

theorem Reachable.sound (h : Reachable bufSize e) (hsize : 5 ≤ bufSize)
    (hbuf : 4 * bufSize ≤ 2 ^ 32) : e.Sound := by
  induction h with
  | init buf => exact ⟨Nat.two_pow_pos 8, fun hc => absurd rfl hc⟩
  | receive h hlen hcont heq ih =>
    exact (ih.ok _ _).sound_of_ends (by omega)
      (fun r hr => (hcont.fits ih (by omega) (by omega) hsize hr).2) heq

/-- **When a call is contained**: whatever the chunk, and whatever is in the backup buffer, the call
ends and stays inside the chunk and the backup buffer exactly when all its rounds fit, and each
takes something. -/
theorem contained_iff (rxBufSize : ℕ) (hbuf : 4 * hciH4TrRxBufSize rxBufSize ≤ 2 ^ 32)
    (h : Reachable (hciH4TrRxBufSize rxBufSize) e) (p : Mem)
    (hlen : len + 4 ≤ hciH4TrRxBufSize rxBufSize) (now : UInt32) :
    e.Contained (hciH4TrRxBufSize rxBufSize) p len now ↔
      ∀ s, H4Round.Comes p now ⟨0, len, e.flushHandler now⟩ s → s.len ≠ 0 →
        s.Fits p now len (hciH4TrRxBufSize rxBufSize) ∧ ¬ s.Stuck p now := by
  have hsize : 5 ≤ hciH4TrRxBufSize rxBufSize := by
    unfold hciH4TrRxBufSize memSizeAlign16
    omega
  have hsound := h.sound hsize hbuf
  have hfew : len + 2 ^ 8 ≤ 2 ^ 32 := by omega
  constructor
  · intro hcont s hcomes hne
    obtain ⟨hok, hfits⟩ := hcont.fits hsound hfew (by omega) hsize hcomes
    refine ⟨hfits hne, fun hstuck => ?_⟩
    obtain ⟨fuel, e', hend⟩ := hcont.ends
    obtain ⟨fuel', hend'⟩ := H4Round.ends_of_comes hcomes hend
    rw [hok.not_ends hfew hne hstuck] at hend'
    exact absurd hend' nofun
  · intro hfits
    have hok := hsound.ok len now
    refine ⟨hok.ends hfew hfits, fun s hcomes hne => ?_⟩
    have hoks := hok.comes hfew (fun r hr hner => (hfits r hr hner).1) hcomes
    exact (H4Round.inside_iff hoks hfew (by omega) hsize hne).mpr (hfits s hcomes hne).1

/-- A command without parameters, in a chunk of its own. -/
theorem reset_contained :
    (hciTrH4Init fun _ => 0).Contained (hciH4TrRxBufSize 272)
    (buffer [hciTrTypeCmd, 3, 0x0C, 0] fun _ => 0) 4 0 := by
  refine (contained_iff 272 (by decide) (.init _) _ (by decide) 0).mpr fun s hcomes hne => ?_
  have hround : H4Round.round (buffer [hciTrTypeCmd, 3, 0x0C, 0] fun _ => 0) 0
    ⟨0, 4, hciTrH4Init fun _ => 0⟩ =
      .inr ⟨4, 0, (hciTrH4Init fun _ => 0).push (buffer [hciTrTypeCmd, 3, 0x0C, 0] fun _ => 0) 4⟩ :=
        rfl
  obtain rfl : (⟨0, 4, hciTrH4Init fun _ => 0⟩ : H4Round) = s := by
    rcases hcomes.cases_head with heq | ⟨m, ⟨-, hm⟩, hrest⟩
    · exact heq
    · obtain rfl := Sum.inr.inj (hround.symm.trans hm)
      rcases hrest.cases_head with rfl | ⟨m', hm', -⟩
      · exact absurd rfl hne
      · exact absurd rfl hm'.1
  refine ⟨⟨fun hc => absurd rfl hc, fun hc => absurd rfl hc, ?_, nofun, nofun⟩, ?_⟩
  · rintro ⟨head, hhead, hkeep⟩
    obtain rfl := Option.some.inj hhead
    exact absurd hkeep (by decide)
  · rintro ⟨-, head, hhead, -, hno⟩
    obtain rfl := Option.some.inj hhead
    exact absurd hno (by decide)

/-- An event that says it is longer than its chunk: the second round takes four bytes of three. -/
theorem longEvent_wraps :
    ¬ (hciTrH4Init fun _ => 0).Contained (hciH4TrRxBufSize 272)
    (buffer [hciTrTypeEvent, 0, 1, 0, 0, 0, 0] fun _ => 0) 7 0 := by
  intro hcont
  have hround : H4Round.round (buffer [hciTrTypeEvent, 0, 1, 0, 0, 0, 0] fun _ => 0) 0
      ⟨0, 7, hciTrH4Init fun _ => 0⟩ = .inr ⟨0, 3, hciTrH4Init fun _ => 0⟩ := rfl
  have haccesses : H4Round.accesses (buffer [hciTrTypeEvent, 0, 1, 0, 0, 0, 0] fun _ => 0) 0
      ⟨0, 3, hciTrH4Init fun _ => 0⟩ = [.chunk 0 1, .chunk 2 1, .take 3 4] := rfl
  have hinside := hcont.inside ⟨0, 3, hciTrH4Init fun _ => 0⟩ (.single ⟨by decide, hround⟩)
    (by decide) (.take 3 4)
    (by rw [haccesses]; simp)
  exact absurd (show 4 ≤ 3 from hinside) (by decide)

end H4Tr

end TcBle.HciTransport
