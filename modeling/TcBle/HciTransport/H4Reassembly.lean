import TcBle.HciTransport.TrH4

/-!
# Reassembly in the H4 transport

A host's commands and ACL data packets come in chunks that need not end where a packet
ends. After a chunk the backup buffer holds the start of the packet that it cut
(`Holding`), and the next chunk goes on from there.

## What is proved

* `receive_pending` — the packets pushed are those sent, whatever the chunks, as long as no chunk
  ends inside a packet of more than 255 bytes.
* `reassembles_iff` — the counters of the backup buffer are eight bits long, so every
  stream is reassembled exactly when the slots of the HCI RX FIFO have at most 255 bytes.
-/

namespace TcBle.HciTransport

/-- A well-formed command or ACL data packet, from its type byte on. -/
inductive H4Packet : List UInt8 → Prop
  /-- A command. -/
  | cmd (op₀ op₁ n : UInt8) {params : List UInt8} (h : params.length = n.toNat) :
      H4Packet (hciTrTypeCmd :: op₀ :: op₁ :: n :: params)
  /-- ACL data. -/
  | acl (c₀ c₁ l₀ l₁ : UInt8) {data : List UInt8} (h : data.length = l₀.toNat + l₁.toNat * 2 ^ 8) :
      H4Packet (hciTrTypeAcl :: c₀ :: c₁ :: l₀ :: l₁ :: data)

/-- A memory that starts with the bytes of `pkt`, up to its `k`-th. -/
def StartsAs (q : Mem) (k : ℕ) (pkt : List UInt8) : Prop := bytes q k = pkt.take k

/-- The header of `pkt` is `head`. -/
structure H4Head.Of (head : H4Head) (pkt : List UInt8) : Prop where
  /-- The packet is not shorter. -/
  headLen_le : 1 + head.headLen ≤ pkt.length
  /-- The type byte says so. -/
  type : ∀ q k, 0 < k → StartsAs q k pkt → h4Head (q 0) = some head
  /-- The header gives the length. -/
  pktLen : ∀ q k, 1 + head.headLen ≤ k → StartsAs q k pkt → head.pktLen q = pkt.length

theorem StartsAs.get {q : Mem} {k : ℕ} {pkt : List UInt8} (h : StartsAs q k pkt) {i : ℕ}
    (hi : i < k)
    (hk : i < pkt.length) : q i = pkt.getD i 0 := by
  have hget := getD_bytes q hi 0
  rw [show bytes q k = pkt.take k from h] at hget
  rw [← hget]
  simp [hi, hk]

/-- Bytes in memory, cut in two. -/
theorem bytes_split (q : Mem) {k len : ℕ} (hk : k ≤ len) :
    bytes q len = bytes q k ++ bytes (adv q k) (len - k) := by
  rw [← bytes_add, Nat.add_sub_cancel' hk]

/-- A chunk that has the whole of what the stream starts with. -/
theorem bytes_of_append {q : Mem} {len : ℕ} {f p r : List UInt8} (h : bytes q len ++ f = p ++ r)
    (hp : p.length ≤ len) : bytes q p.length = p ∧
      bytes (adv q p.length) (len - p.length) ++ f = r := by
  rw [bytes_split q hp, List.append_assoc] at h
  exact List.append_inj h (length_bytes _ _)

theorem startsAs_of_append {q : Mem} {len : ℕ} {f p r : List UInt8} (h : bytes q len ++ f = p ++ r)
    (hp : p.length ≤ len) : StartsAs q p.length p := by
  rw [StartsAs, List.take_length]
  exact (bytes_of_append h hp).1

/-- A well-formed packet has a header. -/
theorem H4Packet.head {pkt : List UInt8} (h : H4Packet pkt) : ∃ head : H4Head, head.Of pkt := by
  cases h with
  | cmd op₀ op₁ n h =>
    refine ⟨h4CmdHead, ?_, fun q k hk hq => ?_, fun q k hk hq => ?_⟩
    · simp [h4CmdHead, hciCmdHeadLen]
    · rw [hq.get hk (by simp)]
      rfl
    · have h3 := hq.get (i := 3) (by simp [h4CmdHead, hciCmdHeadLen] at hk; omega) (by simp)
      simp only [H4Head.pktLen, h4CmdHead, hciCmdHeadLen, h3, List.length_cons, h]
      simp only [List.getD_cons_succ, List.getD_cons_zero]
      omega
  | acl c₀ c₁ l₀ l₁ h =>
    refine ⟨h4AclHead, ?_, fun q k hk hq => ?_, fun q k hk hq => ?_⟩
    · simp [h4AclHead, hciAclHeadLen]
    · rw [hq.get hk (by simp)]
      rfl
    · have hk' : 5 ≤ k := by simpa [h4AclHead, hciAclHeadLen] using hk
      have h3 := hq.get (i := 3) (by omega) (by simp)
      have h4 := hq.get (i := 4) (by omega) (by simp)
      simp only [H4Head.pktLen, h4AclHead, hciAclHeadLen, u16At, adv, Nat.zero_add, h3,
        List.length_cons, h, show 1 + 3 = 4 from rfl, h4]
      simp only [List.getD_cons_succ, List.getD_cons_zero]
      omega

namespace H4Tr

/-- **The backup buffer holds `b`.** -/
structure Holding (e : H4Tr) (b : List UInt8) : Prop where
  /-- The counter. -/
  backupCnt : e.backupCnt = b.length
  /-- The bytes. -/
  backUpBuf : bytes e.backUpBuf b.length = b

variable {e : H4Tr} {b : List UInt8}

theorem Holding.backUp (h : Holding e b) {q : Mem} {n : ℕ} (hshort : b.length + n < 2 ^ 8) :
    Holding (e.backUp q n) (b ++ bytes q n) := by
  refine ⟨?_, ?_⟩
  · simp only [H4Tr.backUp, h.backupCnt, List.length_append, length_bytes]
    omega
  · simp only [H4Tr.backUp, h.backupCnt]
    exact bytes_memcpy h.backUpBuf (bytes q n)

/-- The start of a packet is taken into the empty backup buffer. -/
theorem Holding.start (h : Holding e []) (q : Mem) {len : ℕ} (hshort : len < 2 ^ 8) (now : UInt32) :
    ∃ e', e.hciTrH4BackUpHandler q len now = (e', len) ∧ Holding e' (bytes q len) ∧
      e'.pushed = e.pushed := by
  refine ⟨(e.backUp q len).timerEnable now, ?_, ?_, rfl⟩
  · rw [hciTrH4BackUpHandler, if_pos (show e.backupCnt = 0 from h.backupCnt)]
  · have := h.backUp (q := q) (n := len) (by simpa using hshort)
    exact { this with }

/-- From `e`, whose backup buffer holds the start `b` of a packet that goes on with `t`, to `e'`:
`len` more bytes have come. -/
def Took (b t : List UInt8) (len : ℕ) (e e' : H4Tr) : Prop :=
  if len < t.length then Holding e' (b ++ t.take len) ∧ e'.pushed = e.pushed
  else Holding e' [] ∧ e'.pushed = e.pushed ++ [b ++ t]

variable {t : List UInt8} {head : H4Head} {q : Mem} {len : ℕ}

/-- The header of a packet whose start is in the backup buffer. -/
theorem Holding.startsAs (h : Holding e b) (t : List UInt8) :
    StartsAs e.backUpBuf b.length (b ++ t) := by
  rw [StartsAs, h.backUpBuf, List.take_left]

/-- The rest of a packet whose header is in the backup buffer. -/
theorem Holding.backUpPacket (h : Holding e b) (hhead : head.Of (b ++ t))
    (hb : 1 + head.headLen ≤ b.length)
    (hshort : (b ++ t).length < 2 ^ 8) (hq : bytes q (min t.length len) = t.take len)
      (now : UInt32) :
    ∃ e', e.backUpPacket head q len now = (e', min t.length len) ∧ Took b t len e e' := by
  have hpktLen := hhead.pktLen e.backUpBuf b.length hb (h.startsAs t)
  rw [List.length_append] at hshort hpktLen
  have hcpy : (b.length + t.length + 2 ^ 16 - e.backupCnt) % 2 ^ 16 = t.length := by
    rw [h.backupCnt]
    omega
  have hback := h.backUp (q := q) (n := min t.length len) (by omega)
  have hcnt : (e.backUp q (min t.length len)).backupCnt = b.length + min t.length len := by
    rw [hback.backupCnt, List.length_append, length_bytes]
  unfold H4Tr.backUpPacket
  simp only [hpktLen, hcpy]
  refine ⟨_, rfl, ?_⟩
  unfold Took
  rw [hq] at hback
  by_cases hlen : len < t.length
  · rw [if_pos hlen, if_neg (by rw [hcnt]; omega)]
    exact ⟨{ hback with }, rfl⟩
  · have hall : t.take len = t := List.take_of_length_le (not_lt.mp hlen)
    rw [if_neg hlen, if_pos (by rw [hcnt]; omega)]
    rw [hall] at hback
    refine ⟨⟨rfl, rfl⟩, ?_⟩
    have hbuf := hback.backUpBuf
    rw [← hback.backupCnt] at hbuf
    exact congrArg (fun p => e.pushed ++ [p]) hbuf

/-- **The backup handler goes on** with the packet whose start it holds. -/
theorem Holding.goOn (h : Holding e b) (hb : b ≠ []) (hpkt : H4Packet (b ++ t))
    (hshort : (b ++ t).length < 2 ^ 8) (hq : bytes q (min t.length len) = t.take len)
    (hlen : len + 2 ^ 8 ≤ 2 ^ 32) (now : UInt32) :
    ∃ e', e.hciTrH4BackUpHandler q len now = (e', min t.length len) ∧ Took b t len e e' := by
  obtain ⟨head, hhead⟩ := hpkt.head
  have hpos : 0 < b.length := List.length_pos_iff.mpr hb
  have htype := hhead.type e.backUpBuf b.length hpos (h.startsAs t)
  have hle := hhead.headLen_le
  rw [List.length_append] at hshort hle
  unfold hciTrH4BackUpHandler
  rw [if_neg (by rw [h.backupCnt]; omega), htype]
  simp only [h.backupCnt]
  by_cases hfull : 1 + head.headLen ≤ b.length
  · rw [if_pos hfull]
    exact h.backUpPacket hhead hfull (by rw [List.length_append]; exact hshort) hq now
  · rw [if_neg hfull]
    by_cases hreach : 1 + head.headLen ≤ b.length + len
    · -- the header is completed first
      rw [if_pos (by omega)]
      generalize hcpy : 1 + head.headLen - b.length = cpyLen
      have hsub : subU32 len cpyLen = len - cpyLen := subU32_of_le (by omega) (by omega)
      have hmin : min t.length len = cpyLen + min (t.drop cpyLen).length (len - cpyLen) := by
        rw [List.length_drop]
        omega
      rw [hmin, bytes_add] at hq
      have htake : t.take len = t.take cpyLen ++ (t.drop cpyLen).take (len - cpyLen) := by
        rw [← List.take_add]
        congr 1
        omega
      rw [htake] at hq
      obtain ⟨hq₁, hq₂⟩ := List.append_inj hq (by simp; omega)
      have hback := h.backUp (q := q) (n := cpyLen) (by omega)
      rw [hq₁] at hback
      have hsplit : b ++ t.take cpyLen ++ t.drop cpyLen = b ++ t := by
        rw [List.append_assoc, List.take_append_drop]
      obtain ⟨e', heq, htook⟩ := hback.backUpPacket (hsplit.symm ▸ hhead)
        (by rw [List.length_append, List.length_take]; omega)
        (by rw [hsplit, List.length_append]; exact hshort) hq₂ now
      refine ⟨e', ?_, ?_⟩
      · rw [hsub, heq, hmin]
        simp only [Prod.mk.injEq, true_and]
        rw [List.length_drop]
        omega
      · unfold Took at htook ⊢
        rw [hsplit] at htook
        by_cases hl : len < t.length
        · rw [if_pos (by rw [List.length_drop]; omega)] at htook
          rw [if_pos hl, htake, ← List.append_assoc]
          exact htook
        · rw [if_neg (by rw [List.length_drop]; omega)] at htook
          rw [if_neg hl]
          exact htook
    · rw [if_neg (by omega)]
      have hl : len < t.length := by omega
      have hback := h.backUp (q := q) (n := len) (by omega)
      rw [Nat.min_eq_right hl.le] at hq ⊢
      rw [hq] at hback
      refine ⟨_, rfl, ?_⟩
      unfold Took
      rw [if_pos hl]
      exact ⟨{ hback with }, rfl⟩

/-! ### One chunk -/

/-- The start `b` of the first of the packets `ps` has come. -/
def Pending (ps : List (List UInt8)) (b : List UInt8) : Prop :=
  b = [] ∨ ∃ p ps', ps = p :: ps' ∧ b.length < p.length

/-- **From `e` to `e'`** a chunk has been received of a stream of packets `ps`, which goes on with
`f` after it: some of them are pushed, and the backup buffer holds the start of the next. -/
def Received (ps : List (List UInt8)) (f : List UInt8) (e e' : H4Tr) : Prop :=
  ∃ ps₁ ps₂ b, ps = ps₁ ++ ps₂ ∧ e'.pushed = e.pushed ++ ps₁ ∧ Holding e' b ∧ b ++ f = ps₂.flatten ∧
    Pending ps₂ b

variable {ps : List (List UInt8)} {f : List UInt8} {now : UInt32}

/-- A round that finds nothing left of the chunk, whatever is in memory after it. -/
theorem rxPacket_zero (goOn : ℕ → ℕ → H4Tr → Option H4Tr) (q : Mem) (now : UInt32) (h : Holding e b)
    (hb : b ≠ [] → ∃ t, t ≠ [] ∧ H4Packet (b ++ t) ∧ (b ++ t).length < 2 ^ 8) :
    ∃ e', rxPacket some goOn q 0 now e = some e' ∧ Holding e' b ∧ e'.pushed = e.pushed := by
  unfold rxPacket
  cases hhead : h4Head (q 0) with
  | some head =>
    simp only
    rw [if_pos (by omega)]
    by_cases hnil : b = []
    · subst hnil
      obtain ⟨e', heq, hhold, hpushed⟩ := h.start q (show 0 < 2 ^ 8 by decide) now
      exact ⟨e', by rw [heq], hhold, hpushed⟩
    · obtain ⟨t, ht, hpkt, hshort⟩ := hb hnil
      obtain ⟨e', heq, htook⟩ := h.goOn hnil hpkt hshort (show bytes q (min t.length 0) = _ by simp)
        (by simp) now
      have hpos : 0 < t.length := List.length_pos_iff.mpr ht
      rw [Took, if_pos hpos, List.take_zero, List.append_nil] at htook
      exact ⟨e', by rw [heq], htook⟩
  | none =>
    simp only
    split_ifs
    · exact ⟨e, rfl, h, rfl⟩
    · rename_i hlen
      exact absurd (by decide) hlen
    · exact ⟨e, rfl, h, rfl⟩
    · rename_i hlen
      exact absurd (by decide) hlen
    · exact ⟨e, rfl, h, rfl⟩

/-- A round with nothing in the backup buffer. -/
theorem rxLoop_of_empty (fuel : ℕ) (h : Holding e []) (hpos : len ≠ 0) (hlen : len < 2 ^ 32) :
    rxLoop (fuel + 1) q len now e =
      rxPacket some (fun n len e => rxLoop fuel (adv q n) len now e) q len now e := by
  have hfirst : e.backUpFirst q len now = (e, 0) := by
    rw [backUpFirst, if_neg (not_not.mpr (show e.backupCnt = 0 from h.backupCnt))]
  rw [rxLoop, if_neg hpos, hfirst]
  simp only [adv_zero]
  rw [subU32_of_le (Nat.zero_le _) hlen, Nat.sub_zero]

section Packet

variable {α : Type} {stop : H4Tr → α} {goOn : (n len : ℕ) → H4Tr → α} {p : List UInt8}

/-- A packet that is whole is pushed, and the loop goes on after it. -/
theorem rxPacket_whole (hhead : head.Of p) (hpos : 0 < p.length) (hp : p.length < 2 ^ 16)
    (hstart : StartsAs q p.length p) (hwhole : p.length ≤ len) (hlen : len < 2 ^ 32) :
    rxPacket stop goOn q len now e = goOn p.length (len - p.length) (e.push q p.length) := by
  have hpktLen := hhead.pktLen q p.length hhead.headLen_le hstart
  have hle := hhead.headLen_le
  unfold rxPacket
  rw [hhead.type q p.length hpos hstart]
  simp only [hpktLen, Nat.mod_eq_of_lt hp]
  rw [if_neg (by omega), if_pos ⟨by omega, hwhole⟩, subU32_of_le hwhole hlen]

/-- A packet that the chunk ends inside of goes to the backup handler. -/
theorem rxPacket_part (hhead : head.Of p) (hpos : 0 < len) (hp : p.length < 2 ^ 16)
    (hstart : StartsAs q len p) (hlt : len < p.length) :
    rxPacket stop goOn q len now e = stop (e.hciTrH4BackUpHandler q len now).1 := by
  unfold rxPacket
  rw [hhead.type q len hpos hstart]
  simp only
  by_cases hshortHead : len < 1 + head.headLen
  · rw [if_pos hshortHead]
  · rw [if_neg hshortHead, hhead.pktLen q len (by omega) hstart, Nat.mod_eq_of_lt hp,
      if_neg (by omega), if_pos ⟨by omega, hlt⟩]

end Packet

/-- The rest of a chunk from the start of a packet on. -/
theorem rxLoop_start (fuel : ℕ) {q : Mem} {len : ℕ} {e : H4Tr} {ps : List (List UInt8)}
    (h : Holding e [])
    (hps : ∀ p ∈ ps, H4Packet p ∧ p.length < 2 ^ 16) (hlen : len + 2 ^ 8 ≤ 2 ^ 32)
      (hfuel : len < fuel)
    (hq : bytes q len ++ f = ps.flatten)
    (hcut : ∀ ps₁ p ps₂ b, ps = ps₁ ++ p :: ps₂ → bytes q len = ps₁.flatten ++ b → b ≠ [] →
      b.length < p.length → p.length < 2 ^ 8) :
    ∃ e', rxLoop fuel q len now e = some e' ∧ Received ps f e e' := by
  induction fuel generalizing q len e ps with
  | zero => exact absurd hfuel (Nat.not_lt_zero _)
  | succ fuel ih =>
    by_cases hzero : len = 0
    · subst hzero
      rw [rxLoop, if_pos rfl]
      exact ⟨e, rfl, [], ps, [], rfl, (List.append_nil _).symm, h, hq, Or.inl rfl⟩
    · rw [rxLoop_of_empty fuel h hzero (by omega)]
      cases ps with
      | nil =>
        have := congrArg List.length hq
        simp at this
        omega
      | cons p ps =>
        obtain ⟨hpkt, hp⟩ := hps p List.mem_cons_self
        obtain ⟨head, hhead⟩ := hpkt.head
        rw [List.flatten_cons] at hq
        have hpos : 0 < p.length := by
          have := hhead.headLen_le
          omega
        by_cases hwhole : p.length ≤ len
        · -- the packet is whole: it is pushed, and the loop goes on after it
          have hstart := startsAs_of_append hq hwhole
          obtain ⟨hbytes, hrest⟩ := bytes_of_append hq hwhole
          rw [rxPacket_whole hhead hpos hp hstart hwhole (by omega)]
          have hpush : Holding (e.push q p.length) [] := { h with }
          obtain ⟨e', heq, ps₁, ps₂, b, hsplit, hpushed, hhold, hf, hpend⟩ :=
            ih hpush (fun r hr => hps r (List.mem_cons_of_mem p hr)) (by omega) (by omega) hrest
              fun ps₁ r ps₂ b hsplit hb => hcut (p :: ps₁) r ps₂ b (by rw [hsplit]; rfl) (by
                rw [List.flatten_cons, List.append_assoc, ← hb]
                exact (bytes_split q hwhole).trans (by rw [hbytes]))
          refine ⟨e', heq, p :: ps₁, ps₂, b, by rw [hsplit]; rfl, ?_, hhold, hf, hpend⟩
          rw [hpushed, H4Tr.push, hbytes]
          simp
        · -- the chunk ends inside the packet: what has come is backed up
          have hlt := not_le.mp hwhole
          have hne : bytes q len ≠ [] := by
            intro hnil
            have := congrArg List.length hnil
            simp at this
            omega
          have hshort := hcut [] p ps (bytes q len) rfl rfl hne (by simpa using hlt)
          have hstart : StartsAs q len p := by
            have := congrArg (List.take len) hq
            rw [List.take_append_of_le_length (by simp),
              List.take_append_of_le_length hlt.le] at this
            rw [StartsAs, ← this, List.take_of_length_le (by simp)]
          obtain ⟨e', heq, hhold, hpushed⟩ := h.start q (show len < 2 ^ 8 by omega) now
          rw [rxPacket_part hhead (by omega) hp hstart hlt, heq]
          exact ⟨e', rfl, [], p :: ps, bytes q len, rfl, by rw [hpushed, List.append_nil], hhold,
            hq, Or.inr ⟨p, ps, rfl, by simpa using hlt⟩⟩

/-- The rest of a packet whose start is in the backup buffer, and what follows it in the chunk. -/
theorem rxLoop_pending (fuel : ℕ) (h : Holding e b) (hb : b ≠ []) (ht : t ≠ [])
    (hps : ∀ p ∈ (b ++ t) :: ps, H4Packet p ∧ p.length < 2 ^ 16) (hshort : (b ++ t).length < 2 ^ 8)
    (hlen : len + 2 ^ 8 ≤ 2 ^ 32) (hpos : 0 < len) (hfuel : len < fuel)
    (hq : bytes q len ++ f = t ++ ps.flatten)
    (hcut : ∀ ps₁ p ps₂ c, ps = ps₁ ++ p :: ps₂ → bytes q len = t ++ ps₁.flatten ++ c → c ≠ [] →
      c.length < p.length → p.length < 2 ^ 8) :
    ∃ e', rxLoop fuel q len now e = some e' ∧ Received ((b ++ t) :: ps) f e e' := by
  obtain ⟨fuel, rfl⟩ : ∃ k, fuel = k + 1 := ⟨fuel - 1, by omega⟩
  have htpos : 0 < t.length := List.length_pos_iff.mpr ht
  have hbpos : 0 < b.length := List.length_pos_iff.mpr hb
  have hpkt := (hps _ List.mem_cons_self).1
  have hshort' := hshort
  rw [List.length_append] at hshort'
  have htake : bytes q (min t.length len) = t.take len := by
    have := congrArg (List.take (min t.length len)) hq
    rw [List.take_append_of_le_length (by rw [length_bytes]; exact Nat.min_le_right _ _),
      List.take_append_of_le_length (Nat.min_le_left _ _)] at this
    rw [bytes_split q (Nat.min_le_right t.length len), List.take_left' (length_bytes _ _)] at this
    rw [this]
    cases Nat.le_total t.length len with
    | inl hle =>
      rw [Nat.min_eq_left hle, List.take_length, List.take_of_length_le hle]
    | inr hle =>
      rw [Nat.min_eq_right hle]
  obtain ⟨e₁, hback, htook⟩ := h.goOn hb hpkt hshort htake hlen now
  have hround : rxLoop (fuel + 1) q len now e =
      rxPacket some (fun n l e => rxLoop fuel (adv (adv q (min t.length len)) n) l now e)
        (adv q (min t.length len)) (len - min t.length len) now e₁ := by
    have hmod : min t.length len % 2 ^ 8 = min t.length len := Nat.mod_eq_of_lt (by omega)
    rw [rxLoop, if_neg (by omega), backUpFirst, if_pos (by rw [h.backupCnt]; omega), hback]
    simp only [hmod]
    rw [subU32_of_le (Nat.min_le_right _ _) (by omega)]
  rw [hround]
  unfold Took at htook
  by_cases hl : len < t.length
  · -- the chunk ends inside the packet
    rw [if_pos hl] at htook
    obtain ⟨hhold, hpushed⟩ := htook
    rw [Nat.min_eq_right hl.le, Nat.sub_self]
    have hrest : b ++ t.take len ++ t.drop len = b ++ t := by
      rw [List.append_assoc, List.take_append_drop]
    have hdrop : t.drop len ≠ [] := by
      intro hnil
      have := congrArg List.length hnil
      simp at this
      omega
    obtain ⟨e', heq, hhold', hpushed'⟩ := rxPacket_zero _ (adv q len) now hhold
      fun _ => ⟨t.drop len, hdrop, hrest.symm ▸ hpkt, hrest.symm ▸ hshort⟩
    refine ⟨e', heq, [], (b ++ t) :: ps, b ++ t.take len, rfl,
      by rw [hpushed', hpushed, List.append_nil],
      hhold', ?_, Or.inr ⟨b ++ t, ps, rfl, by simp; omega⟩⟩
    rw [Nat.min_eq_right hl.le] at htake
    rw [List.flatten_cons, List.append_assoc, List.append_assoc, ← htake, hq]
  · rw [if_neg hl] at htook
    obtain ⟨hhold, hpushed⟩ := htook
    have hle := not_lt.mp hl
    rw [Nat.min_eq_left hle]
    obtain ⟨hbytes, hrest⟩ := bytes_of_append hq hle
    by_cases hend : len - t.length = 0
    · -- the chunk ends with the packet
      rw [hend] at hrest ⊢
      obtain ⟨e', heq, hhold', hpushed'⟩ := rxPacket_zero _ (adv q t.length) now
        hhold fun hnil => absurd rfl hnil
      exact ⟨e', heq, [b ++ t], ps, [], rfl, by rw [hpushed', hpushed], hhold',
        by simpa using hrest, Or.inl rfl⟩
    · -- the round goes on as one that begins after the packet
      rw [← rxLoop_of_empty fuel hhold hend (by omega)]
      obtain ⟨e', heq, ps₁, ps₂, c, hsplit, hpushed', hhold', hf, hpend⟩ :=
        rxLoop_start (fuel + 1) hhold (fun p hp => hps p (List.mem_cons_of_mem _ hp))
          (by omega) (by omega) hrest fun ps₁ p ps₂ c hsplit hc =>
            hcut ps₁ p ps₂ c hsplit (by
              rw [List.append_assoc, ← hc]
              exact (bytes_split q hle).trans (by rw [hbytes]))
      refine ⟨e', heq, (b ++ t) :: ps₁, ps₂, c, by rw [hsplit]; rfl, ?_, hhold', hf, hpend⟩
      rw [hpushed', hpushed]
      simp

/-! ### A whole stream -/

end H4Tr

/-- A chunk that the DMA has put into a slot. -/
structure H4Chunk where
  /-- The system tick when the handler looks at it. -/
  now : UInt32
  /-- Its bytes. -/
  data : List UInt8
  /-- What the slot holds after them. -/
  stale : Mem

/-- The bytes of some chunks. -/
def streamOf (cs : List H4Chunk) : List UInt8 := cs.flatMap H4Chunk.data

theorem streamOf_cons (c : H4Chunk) (cs : List H4Chunk) :
    streamOf (c :: cs) = c.data ++ streamOf cs := rfl

/-- No chunk of `cs` ends inside a packet of `ps` that has more than 255 bytes; `b` came before. -/
def NoLongCut (ps : List (List UInt8)) (b : List UInt8) (cs : List H4Chunk) : Prop :=
  ∀ cs₁ cs₂ ps₁ p ps₂ d, cs = cs₁ ++ cs₂ → ps = ps₁ ++ p :: ps₂ →
    b ++ streamOf cs₁ = ps₁.flatten ++ d →
    d ≠ [] → d.length < p.length → p.length < 2 ^ 8

namespace H4Tr

/-- The handler is called for each of the chunks. -/
def receive (fuel : ℕ) : List H4Chunk → H4Tr → Option H4Tr
  | [], e => some e
  | c :: cs, e => (e.hciTrH4RxHandler fuel (buffer c.data c.stale) c.data.length c.now).bind
    (receive fuel cs)

/-- The backup buffer is never flushed. -/
def Timely (fuel : ℕ) : List H4Chunk → H4Tr → Prop
  | [], _ => True
  | c :: cs, e => e.flushHandler c.now = e ∧
      ∀ e', e.hciTrH4RxHandler fuel (buffer c.data c.stale) c.data.length c.now = some e' →
        Timely fuel cs e'

/-- A chunk, wherever the last one ended. -/
theorem rxHandler_received {fuel : ℕ} {c : H4Chunk} (h : Holding e b) (hpend : Pending ps b)
    (hps : ∀ p ∈ ps, H4Packet p ∧ p.length < 2 ^ 16) (hflush : e.flushHandler c.now = e)
    (hlen : c.data.length + 2 ^ 8 ≤ 2 ^ 32) (hne : c.data ≠ []) (hfuel : c.data.length < fuel)
    (hq : b ++ (c.data ++ f) = ps.flatten) (hcut : NoLongCut ps b [c]) :
    ∃ e', e.hciTrH4RxHandler fuel (buffer c.data c.stale) c.data.length c.now = some e' ∧
      Received ps f e e' := by
  rw [hciTrH4RxHandler, hflush]
  have hstream : streamOf [c] = c.data := List.append_nil _
  have hafter : ∀ ps₁ p ps₂ d, ps = ps₁ ++ p :: ps₂ → b ++ c.data = ps₁.flatten ++ d → d ≠ [] →
      d.length < p.length → p.length < 2 ^ 8 := fun ps₁ p ps₂ d hsplit hb =>
    hcut [c] [] ps₁ p ps₂ d rfl hsplit (by rw [hstream]; exact hb)
  have hbytes := bytes_buffer c.data c.stale
  rcases eq_or_ne b [] with rfl | hb
  · refine rxLoop_start fuel h hps hlen hfuel
      (by rw [hbytes]; exact hq) fun ps₁ p ps₂ d hsplit hd => ?_
    rw [hbytes] at hd
    exact hafter ps₁ p ps₂ d hsplit (by rw [List.nil_append, hd])
  · obtain hnil | ⟨p, ps, rfl, hlt⟩ := hpend
    · exact absurd hnil hb
    · rw [List.flatten_cons] at hq
      obtain ⟨t, rfl⟩ : b <+: p :=
        List.prefix_of_prefix_length_le (hq ▸ List.prefix_append _ _)
        (List.prefix_append p _) hlt.le
      rw [List.append_assoc] at hq
      have hrest := List.append_cancel_left hq
      have ht : t ≠ [] := by
        rintro rfl
        simp at hlt
      refine rxLoop_pending fuel h hb ht hps
        (hcut [] [c] [] _ ps b rfl rfl (by simp [streamOf]) hb hlt) hlen
        (List.length_pos_iff.mpr hne) hfuel
          (by rw [hbytes]; exact hrest) fun ps₁ p ps₂ d hsplit hd => ?_
      rw [hbytes] at hd
      refine hafter ((b ++ t) :: ps₁) p ps₂ d (by rw [hsplit]; rfl) ?_
      rw [hd]
      simp

/-- **Whatever the chunks**, the packets pushed are those sent. -/
theorem receive_pending {fuel : ℕ} (cs : List H4Chunk) (h : Holding e b) (hpend : Pending ps b)
    (hps : ∀ p ∈ ps, H4Packet p ∧ p.length < 2 ^ 16)
    (hcs : ∀ c ∈ cs, c.data ≠ [] ∧ c.data.length + 2 ^ 8 ≤ 2 ^ 32 ∧ c.data.length < fuel)
    (htimely : Timely fuel cs e) (hq : b ++ streamOf cs = ps.flatten) (hcut : NoLongCut ps b cs) :
    ∃ e', receive fuel cs e = some e' ∧ e'.pushed = e.pushed ++ ps := by
  induction cs generalizing e b ps with
  | nil =>
    rw [show streamOf [] = [] from rfl, List.append_nil] at hq
    refine ⟨e, rfl, ?_⟩
    obtain rfl | ⟨p, ps, rfl, hlt⟩ := hpend
    · have hnil : ps = [] := by
        cases ps with
        | nil => rfl
        | cons p ps =>
          obtain ⟨head, hhead⟩ := (hps p List.mem_cons_self).1.head
          have := hhead.headLen_le
          have := congrArg List.length hq
          simp at this
          omega
      rw [hnil, List.append_nil]
    · have := congrArg List.length hq
      simp at this
      omega
  | cons c cs ih =>
    obtain ⟨hflush, hnext⟩ := htimely
    obtain ⟨hne, hlen, hfuel⟩ := hcs c List.mem_cons_self
    have hone : NoLongCut ps b [c] := by
      intro cs₁ cs₂ ps₁ p ps₂ d hsplit
      exact hcut cs₁ (cs₂ ++ cs) ps₁ p ps₂ d (by rw [← List.append_assoc, ← hsplit]; rfl)
    obtain ⟨e', heq, ps₁, ps₂, b', rfl, hpushed, hhold, hf, hpend'⟩ :=
      rxHandler_received h hpend hps hflush hlen hne hfuel hq hone
    have hafter : b ++ c.data = ps₁.flatten ++ b' := by
      rw [streamOf_cons, List.flatten_append, ← hf, ← List.append_assoc, ← List.append_assoc] at hq
      exact List.append_cancel_right hq
    have hrest : NoLongCut ps₂ b' cs := by
      intro cs₁ cs₂ qs p qs' d hsplit hps₂ hd
      refine hcut (c :: cs₁) cs₂ (ps₁ ++ qs) p qs' d (by rw [hsplit]; rfl)
        (by rw [hps₂, List.append_assoc]) ?_
      rw [streamOf_cons, ← List.append_assoc, hafter, List.append_assoc, hd, List.flatten_append,
        List.append_assoc]
    obtain ⟨e'', heq', hpushed'⟩ := ih hhold hpend' (fun p hp => hps p (List.mem_append_right _ hp))
      (fun c' hc => hcs c' (List.mem_cons_of_mem _ hc)) (hnext e' heq) hf hrest
    refine ⟨e'', by rw [receive, heq]; exact heq', ?_⟩
    rw [hpushed', hpushed, List.append_assoc]

/-- A stream of packets as it comes: HCI RX slots of `N` bytes, chunks that a slot of the UART
admits, and a fuel that covers them. -/
structure Arrives (N fuel : ℕ) (pkts : List (List UInt8)) (cs : List H4Chunk) (e : H4Tr) :
    Prop where
  /-- The packets are well formed, and each fits an HCI RX slot. -/
  packet : ∀ p ∈ pkts, H4Packet p ∧ p.length ≤ N
  /-- The chunks fit a slot, after its length. -/
  chunk : ∀ c ∈ cs, c.data ≠ [] ∧ c.data.length + 4 ≤ hciH4TrRxBufSize N ∧ c.data.length < fuel
  /-- The chunks have the bytes of the packets. -/
  stream : streamOf cs = pkts.flatten
  /-- No flush timeout. -/
  timely : Timely fuel cs e

/-- Exactly the packets sent are pushed. -/
def Reassembled (fuel : ℕ) (pkts : List (List UInt8)) (cs : List H4Chunk) (e : H4Tr) : Prop :=
  ∃ e', receive fuel cs e = some e' ∧ e'.pushed = pkts

/-- Without a long cut the packets are reassembled. -/
theorem Arrives.reassembled {N fuel : ℕ} {pkts : List (List UInt8)} {cs : List H4Chunk} {buf : Mem}
    (h : Arrives N fuel pkts cs (hciTrH4Init buf)) (hN : N < 2 ^ 16) (hcut : NoLongCut pkts [] cs) :
    Reassembled fuel pkts cs (hciTrH4Init buf) := by
  refine receive_pending cs ⟨rfl, rfl⟩ (Or.inl rfl) (fun p hp => ?_)
    (fun c hc => ?_) h.timely h.stream hcut
  · obtain ⟨hpkt, hlen⟩ := h.packet p hp
    exact ⟨hpkt, by omega⟩
  · obtain ⟨hne, hlen, hfuel⟩ := h.chunk c hc
    unfold hciH4TrRxBufSize memSizeAlign16 at hlen
    exact ⟨hne, by omega, hfuel⟩

/-- The shortest packet that the counters cannot hold: ACL data of 251 bytes. -/
def longPacket : List UInt8 := [hciTrTypeAcl, 0, 0, 251, 0] ++ List.replicate 251 0

/-- It comes in two chunks, the first with nothing but its type. -/
def typeFirst : List H4Chunk :=
    [⟨1, longPacket.take 1, fun _ => 0⟩, ⟨1, longPacket.drop 1, fun _ => 0⟩]

theorem length_longPacket : longPacket.length = 256 := by
  rw [longPacket, List.length_append, List.length_replicate]
  rfl

theorem arrives_typeFirst {N : ℕ} (hN : 256 ≤ N) :
    Arrives N 256 [longPacket] typeFirst (hciTrH4Init fun _ => 0) where
  packet := by
    intro p hp
    rw [List.mem_singleton.mp hp]
    exact ⟨.acl 0 0 251 0 (List.length_replicate ..), length_longPacket.trans_le hN⟩
  chunk := by
    have hsize : 259 ≤ hciH4TrRxBufSize N := by
      unfold hciH4TrRxBufSize memSizeAlign16
      omega
    intro c hc
    rcases List.mem_cons.mp hc with rfl | hc
    · exact ⟨nofun, le_trans (by decide) hsize, by decide⟩
    · rw [List.mem_singleton.mp hc]
      have hlen : (longPacket.drop 1).length = 255 := by rw [List.length_drop, length_longPacket]
      exact ⟨nofun, by simp only [hlen]; omega, by simp only [hlen]; decide⟩
  stream := rfl
  timely := by
    refine ⟨rfl, fun e he => ⟨?_, fun _ _ => trivial⟩⟩
    obtain rfl := Option.some.inj he
    rfl

/-- Nothing is pushed. -/
theorem not_reassembled_typeFirst :
    ¬ Reassembled 256 [longPacket] typeFirst (hciTrH4Init fun _ => 0) := by
  rintro ⟨e, he, hpushed⟩
  have hnil : (receive 256 typeFirst (hciTrH4Init fun _ => 0)).map H4Tr.pushed = some [] := by
    decide +kernel
  rw [he, Option.map_some, hpushed] at hnil
  exact absurd hnil (by simp)

/-- **Reassembly**: a stream is reassembled if no chunk of it ends inside a packet of more than 255
bytes; all that can arrive are, exactly when no slot has more. -/
theorem reassembles_iff (N : ℕ) :
    (N < 2 ^ 16 → ∀ fuel pkts cs buf, Arrives N fuel pkts cs (hciTrH4Init buf) →
      NoLongCut pkts [] cs →
      Reassembled fuel pkts cs (hciTrH4Init buf)) ∧
    ((∀ fuel pkts cs buf, Arrives N fuel pkts cs (hciTrH4Init buf) →
      Reassembled fuel pkts cs (hciTrH4Init buf)) ↔ N ≤ 255) := by
  refine ⟨fun hN fuel pkts cs buf h hcut => h.reassembled hN hcut, fun hall => ?_,
    fun hN fuel pkts cs buf h => ?_⟩
  · by_contra hlong
    exact not_reassembled_typeFirst (hall _ _ _ _ (arrives_typeFirst (by omega)))
  · refine h.reassembled (by omega) fun cs₁ cs₂ ps₁ p ps₂ d _ hsplit _ _ _ => ?_
    have := (h.packet p (by rw [hsplit]; simp)).2
    omega

/-- With the slots of 272 bytes that the examples have, the long packet fits and is lost. -/
theorem longPacket_lost : Arrives 272 256 [longPacket] typeFirst (hciTrH4Init fun _ => 0) ∧
    ¬ Reassembled 256 [longPacket] typeFirst (hciTrH4Init fun _ => 0) :=
  ⟨arrives_typeFirst (by decide), not_reassembled_typeFirst⟩

end H4Tr

end TcBle.HciTransport
