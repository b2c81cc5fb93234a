import TcBle.Foundation.Stuffing
import TcBle.HciTransport.Slip
import TcBle.HciTransport.TrH5

/-!
# The SLIP codec and its buffers

The two loops of `hci_slip.c` with their pointers and counters: the decoder reads from a pointer
into the received packet, counts down what is left of it, and writes to the decode buffer; the
encoder writes to the encode buffer.

## The model

`SlipCb` is the control block `hciSlipCb`, and the list of what the packet handler was called with.
`decodeLen` and `encodeLen` are `u16` variables and `len` a `u32`; they are numbers, taken modulo
their size wherever the code computes with them. Memory is what a pointer sees, so that a read or
write past the end of a buffer would be one in the model too. The sizes of the two buffers are those
of `SlipConfig`; the assertions are empty in a release.

## What is proved

* `Rounds.inPacket` — the invariant of the decoder's loop: the pointer and what is left stay within
  the packet, and what has been written within the decode buffer.
* `decodePacket_accepts` — the handler gets exactly the frames of the grammar whose content fits.
* `encodePacket_eq` — the encoder leaves the encoding in its buffer.
* `slip_roundTrip` — the form of the encoding, and that it is decoded to the packet.
-/

namespace TcBle.HciTransport

open TcBle.Foundation.Stuffing

/-- `HCI_SLIP_ENCODE_BUF_SIZE`, for HCI TX slots of `txBufSize` bytes. -/
def hciSlipEncodeBufSize (txBufSize : ℕ) : ℕ :=
  memSizeAlign4 (2 + (hciH5HeadLen + txBufSize + hciH5CrcLen) * 2)

/-- The sizes of the HCI slots. The `u16` lengths of the codec can count its buffers. -/
structure SlipConfig where
  rxBufSize : ℕ
  txBufSize : ℕ
  decode_lt : hciSlipDecodeBufSize rxBufSize < 2 ^ 16
  encode_lt : hciSlipEncodeBufSize txBufSize < 2 ^ 16

/-- `HCI_SLIP_DECODE_BUF_SIZE`. -/
def SlipConfig.decodeBufSize (c : SlipConfig) : ℕ := hciSlipDecodeBufSize c.rxBufSize

/-- `HCI_SLIP_ENCODE_BUF_SIZE`. -/
def SlipConfig.encodeBufSize (c : SlipConfig) : ℕ := hciSlipEncodeBufSize c.txBufSize

/-- The control block. -/
structure SlipCb where
  decodeBuf : Mem
  encodeBuf : Mem
  decodeLen : ℕ
  encodeLen : ℕ
  oofEnable : Bool
  /-- What `HCI_H5_PktHandler` was called with. -/
  handled : List (List UInt8)

/-- `HCI_Slip_Init`. -/
def hciSlipInit (decodeBuf encodeBuf : Mem) : SlipCb :=
  { decodeBuf, encodeBuf, decodeLen := 0, encodeLen := 0, oofEnable := false, handled := [] }

/-- `HCI_SLip_SetFlowCtrlEnable`. -/
def SlipCb.hciSlipSetFlowCtrlEnable (enable : Bool) (cb : SlipCb) : SlipCb :=
  { cb with oofEnable := enable }

/-! ### The decoder -/

/-- The variables of the decoder's loop: `pBuf` is how far the pointer is into the packet. -/
structure DecodeLoop where
  pBuf : ℕ
  len : ℕ
  decodeLen : ℕ
  decodeBuf : Mem

/-- A byte goes to the decode buffer, for `taken` bytes of the packet. -/
def DecodeLoop.put (decodeBufSize : ℕ) (b : UInt8) (taken : ℕ) (d : DecodeLoop) :
    Option DecodeLoop :=
  if d.decodeLen + 1 > decodeBufSize then none
  else some
    { pBuf := d.pBuf + taken, len := subU32 d.len taken, decodeLen := (d.decodeLen + 1) % 2 ^ 16,
      decodeBuf := memcpy d.decodeBuf d.decodeLen [b] }

/-- One round of the loop; `none` where the packet is discarded. -/
def DecodeLoop.round (decodeBufSize : ℕ) (pPacket : Mem) (d : DecodeLoop) : Option DecodeLoop :=
  if pPacket d.pBuf = slipEscape then
    let unencoded := hciSlipGetUnencoded (pPacket (d.pBuf + 1))
    if unencoded = slipInvalidUnencoded then none else d.put decodeBufSize unencoded 2
  else d.put decodeBufSize (pPacket d.pBuf) 1

/-- The loop, and whether it came to its end. -/
def DecodeLoop.loop (decodeBufSize : ℕ) (pPacket : Mem) :
    ℕ → DecodeLoop → Option (DecodeLoop × Bool)
  | 0, _ => none
  | fuel + 1, d =>
    if d.len = 0 then some (d, true)
    else
      match d.round decodeBufSize pPacket with
      | none => some (d, false)
      | some d => d.loop decodeBufSize pPacket fuel

/-- The loop's variables at its start, for a packet of `len` bytes. -/
def SlipCb.decodeStart (len : ℕ) (cb : SlipCb) : DecodeLoop :=
  { pBuf := 1, len := subU32 len 2, decodeLen := 0, decodeBuf := cb.decodeBuf }

/-- `HCI_Slip_DecodePacket`. -/
def SlipCb.hciSlipDecodePacket (decodeBufSize fuel : ℕ) (pPacket : Mem) (len : ℕ) (cb : SlipCb) :
    Option SlipCb :=
  if len < 6 then some cb
  else
    ((cb.decodeStart len).loop decodeBufSize pPacket fuel).map fun r =>
      let cb := { cb with decodeBuf := r.1.decodeBuf, decodeLen := r.1.decodeLen }
      if r.2 then { cb with handled := cb.handled ++ [bytes cb.decodeBuf cb.decodeLen] } else cb

/-- The loop's variables after some rounds. -/
inductive Rounds (decodeBufSize : ℕ) (pPacket : Mem) (start : DecodeLoop) : DecodeLoop → Prop where
  /-- At the start. -/
  | start : Rounds decodeBufSize pPacket start start
  /-- After one more. -/
  | round {d d' : DecodeLoop} : Rounds decodeBufSize pPacket start d → d.len ≠ 0 →
    d.round decodeBufSize pPacket = some d' → Rounds decodeBufSize pPacket start d'

/-! ### The encoder -/

/-- The variables of the encoder: `pEncodeBuf` is how far the pointer is into the encode buffer. -/
structure EncodeLoop where
  pEncodeBuf : ℕ
  encodeLen : ℕ
  encodeBuf : Mem

/-- Bytes go to the encode buffer. -/
def EncodeLoop.put (bs : List UInt8) (l : EncodeLoop) : EncodeLoop :=
  { pEncodeBuf := l.pEncodeBuf + bs.length, encodeLen := (l.encodeLen + bs.length) % 2 ^ 16,
    encodeBuf := memcpy l.encodeBuf l.pEncodeBuf bs }

/-- `HCI_Slip_EncodePacket`. The first four bytes of the buffer are for the DMA's length. -/
def SlipCb.hciSlipEncodePacket (pPacket : Mem) (len : ℕ) (cb : SlipCb) : SlipCb :=
  let l : EncodeLoop := { pEncodeBuf := 4, encodeLen := 0, encodeBuf := cb.encodeBuf }
  let l := l.put [slipDelimiter]
  let l := (List.range len).foldl
    (fun l i => l.put (slipEncodeByte cb.oofEnable (pPacket i))) l
  let l := l.put [slipDelimiter]
  { cb with encodeBuf := l.encodeBuf, encodeLen := l.encodeLen }

/-! ### The grammar -/

/-- What a code after `0xDB` stands for. -/
def slipCode (k : UInt8) : Option UInt8 :=
  if k = 0xDC then some 0xC0
  else if k = 0xDD then some 0xDB
  else if k = 0xDE then some 0x11
  else if k = 0xDF then some 0x13
  else none

/-- `HCI_Slip_GetUnencoded` knows the codes, and no others. -/
theorem slipCode_eq (k : UInt8) :
    slipCode k =
      if hciSlipGetUnencoded k = slipInvalidUnencoded then none
      else some (hciSlipGetUnencoded k) := by
  by_cases hk : k = 0xDC ∨ k = 0xDD ∨ k = 0xDE ∨ k = 0xDF
  · rcases hk with rfl | rfl | rfl | rfl <;> rfl
  · obtain ⟨h1, h2, h3, h4⟩ : k ≠ 0xDC ∧ k ≠ 0xDD ∧ k ≠ 0xDE ∧ k ≠ 0xDF := by
      simpa only [not_or] using hk
    have hnone : hciSlipGetUnencoded k = slipInvalidUnencoded := by
      simp [hciSlipGetUnencoded, slipEscapeTbl, h1.symm, h2.symm, h3.symm, h4.symm]
    rw [if_pos hnone, slipCode, if_neg h1, if_neg h2, if_neg h3, if_neg h4]

/-- The content of a SLIP frame, without its delimiters. -/
abbrev SlipContent : List UInt8 → List UInt8 → Prop := Content slipEscape slipCode

/-- A frame with its delimiters. -/
def slipFrame (body : List UInt8) : List UInt8 := slipDelimiter :: (body ++ [slipDelimiter])

/-- The decoder's loop has taken a part of the frame, and `rest` is left; `c` is the content of what
it has taken. -/
structure InPacket (decodeBufSize : ℕ) (body : List UInt8) (buf : Mem) (d : DecodeLoop)
    (rest c : List UInt8) : Prop where
  taken : ∃ done, body = done ++ rest ∧ d.pBuf = 1 + done.length
  len : d.len = rest.length
  decodeLen : d.decodeLen = c.length
  fits : c.length ≤ decodeBufSize
  written : bytes d.decodeBuf c.length = c
  outside : ∀ i, decodeBufSize ≤ i → d.decodeBuf i = buf i
  content : ∀ c', SlipContent body c' ↔ ∃ c'', c' = c ++ c'' ∧ SlipContent rest c''

section Decoder

variable {decodeBufSize : ℕ} {body : List UInt8} {buf : Mem} {d : DecodeLoop}
  {rest c : List UInt8}

/-- The pointer sees what is left, and then the delimiter. -/
theorem InPacket.read (h : InPacket decodeBufSize body buf d rest c) (behind : Mem) {i : ℕ}
    (hi : i ≤ rest.length) :
    buffer (slipFrame body) behind (d.pBuf + i) = (rest ++ [slipDelimiter]).getD i 0 := by
  obtain ⟨done, hbody, hpos⟩ := h.taken
  have hlt : i < (rest ++ [slipDelimiter]).length := by
    rw [List.length_append, List.length_singleton]
    omega
  rw [buffer_apply, slipFrame, hbody, hpos, Nat.add_assoc, Nat.add_comm 1, List.getD_cons_succ,
    List.append_assoc, List.getD_append_right _ _ _ _ (by omega), Nat.add_sub_cancel_left,
    List.getD_eq_getElem _ _ hlt, List.getD_eq_getElem _ _ hlt]

/-- A byte is put into the buffer where it fits. -/
theorem InPacket.put (hsize : decodeBufSize < 2 ^ 16) (hlen : body.length < 2 ^ 32)
    {taken rest' : List UInt8} {b : UInt8}
    (h : InPacket decodeBufSize body buf d (taken ++ rest') c)
    (hcontent : ∀ c', SlipContent (taken ++ rest') c' ↔
      ∃ c'', c' = b :: c'' ∧ SlipContent rest' c'') :
    (∃ d', d.put decodeBufSize b taken.length = some d' ∧
        InPacket decodeBufSize body buf d' rest' (c ++ [b])) ∨
      d.put decodeBufSize b taken.length = none ∧
        ∀ c', SlipContent body c' → decodeBufSize < c'.length := by
  obtain ⟨done, hbody, hpos⟩ := h.taken
  have hleft : d.len = taken.length + rest'.length := by rw [h.len, List.length_append]
  have hall : body.length = done.length + (taken.length + rest'.length) := by
    rw [hbody, List.length_append, List.length_append]
  have hlong : ∀ c', SlipContent body c' ↔ ∃ c'', c' = c ++ [b] ++ c'' ∧ SlipContent rest' c'' := by
    intro c'
    rw [h.content]
    constructor
    · rintro ⟨x, rfl, hx⟩
      obtain ⟨y, rfl, hy⟩ := (hcontent x).mp hx
      exact ⟨y, by simp, hy⟩
    · rintro ⟨y, rfl, hy⟩
      exact ⟨b :: y, by simp, (hcontent _).mpr ⟨y, rfl, hy⟩⟩
  have hwritten := bytes_memcpy h.written [b]
  have hfits := h.fits
  by_cases hroom : d.decodeLen + 1 > decodeBufSize
  · refine Or.inr ⟨if_pos hroom, ?_⟩
    intro c' hc'
    obtain ⟨c'', rfl, -⟩ := (hlong c').mp hc'
    rw [h.decodeLen] at hroom
    simp only [List.length_append, List.length_singleton]
    omega
  · refine Or.inl ⟨_, if_neg hroom, ⟨?_, ?_, ?_, ?_, ?_, ?_, hlong⟩⟩
    · exact ⟨done ++ taken, by rw [hbody, List.append_assoc], by
        rw [hpos, List.length_append, Nat.add_assoc]⟩
    · change subU32 d.len taken.length = rest'.length
      rw [subU32_of_le (by omega) (by omega)]
      omega
    · change (d.decodeLen + 1) % 2 ^ 16 = (c ++ [b]).length
      rw [h.decodeLen] at hroom ⊢
      rw [List.length_append, List.length_singleton, Nat.mod_eq_of_lt (by omega)]
    · rw [h.decodeLen] at hroom
      rw [List.length_append, List.length_singleton]
      omega
    · change bytes (memcpy d.decodeBuf d.decodeLen [b]) (c ++ [b]).length = c ++ [b]
      rw [h.decodeLen]
      exact hwritten
    · intro i hi
      change memcpy d.decodeBuf d.decodeLen [b] i = buf i
      rw [memcpy_of_outside _ (Or.inr (by rw [List.length_singleton]; omega)), h.outside i hi]

/-- **One round** takes one byte of the content, or discards a packet that has none that fits. -/
theorem InPacket.round (hsize : decodeBufSize < 2 ^ 16) (hlen : body.length < 2 ^ 32)
    (h : InPacket decodeBufSize body buf d rest c) (hne : d.len ≠ 0) (behind : Mem) :
    (∃ d' rest' c', d.round decodeBufSize (buffer (slipFrame body) behind) = some d' ∧
        rest'.length < rest.length ∧ InPacket decodeBufSize body buf d' rest' c') ∨
      d.round decodeBufSize (buffer (slipFrame body) behind) = none ∧
        ∀ c', SlipContent body c' → decodeBufSize < c'.length := by
  -- a round that puts a byte, for the bytes that it takes
  have hput : ∀ taken rest' b, rest = taken ++ rest' → 0 < taken.length →
      d.round decodeBufSize (buffer (slipFrame body) behind) = d.put decodeBufSize b taken.length →
      (∀ c', SlipContent (taken ++ rest') c' ↔ ∃ c'', c' = b :: c'' ∧ SlipContent rest' c'') →
      (∃ d' rest' c', d.round decodeBufSize (buffer (slipFrame body) behind) = some d' ∧
        rest'.length < rest.length ∧ InPacket decodeBufSize body buf d' rest' c') ∨
      d.round decodeBufSize (buffer (slipFrame body) behind) = none ∧
        ∀ c', SlipContent body c' → decodeBufSize < c'.length := by
    rintro taken rest' b rfl hpos hround hcontent
    rw [hround]
    obtain ⟨d', hd', hin⟩ | hnone := h.put hsize hlen hcontent
    · refine Or.inl ⟨d', rest', c ++ [b], hd', ?_, hin⟩
      rw [List.length_append]
      omega
    · exact Or.inr hnone
  have hfirst := h.read behind (Nat.zero_le _)
  rw [Nat.add_zero] at hfirst
  cases rest with
  | nil => exact absurd h.len hne
  | cons b rest =>
    rw [List.cons_append, List.getD_cons_zero] at hfirst
    have hsecond := h.read behind (i := 1) (by simp)
    rw [List.cons_append, List.getD_cons_succ] at hsecond
    by_cases hb : b = slipEscape
    · subst hb
      -- a packet that is discarded has no content
      have hdiscard : hciSlipGetUnencoded (buffer (slipFrame body) behind (d.pBuf + 1)) =
          slipInvalidUnencoded → (∀ k l, rest = k :: l → slipCode k = none) →
          d.round decodeBufSize (buffer (slipFrame body) behind) = none ∧
            ∀ c', SlipContent body c' → decodeBufSize < c'.length := by
        intro hinvalid hcode
        refine ⟨by rw [DecodeLoop.round, if_pos hfirst, hinvalid]; rfl, ?_⟩
        intro c' hc'
        obtain ⟨x, -, hx⟩ := (h.content c').mp hc'
        obtain ⟨k, l, u, _, hl, hk, -, -⟩ := content_esc_iff.mp hx
        rw [hcode k l hl] at hk
        cases hk
      cases rest with
      | nil =>
        -- behind the last byte comes the delimiter, which is no code
        refine Or.inr (hdiscard ?_ (by simp))
        rw [hsecond]
        rfl
      | cons k rest =>
        rw [List.cons_append, List.getD_cons_zero] at hsecond
        by_cases hinvalid : hciSlipGetUnencoded k = slipInvalidUnencoded
        · refine Or.inr (hdiscard (by rw [hsecond, hinvalid]) ?_)
          rintro k' l hl
          obtain ⟨rfl, rfl⟩ := List.cons.inj hl
          rw [slipCode_eq, if_pos hinvalid]
        · refine hput [slipEscape, k] rest (hciSlipGetUnencoded k) rfl (by simp) ?_ ?_
          · rw [DecodeLoop.round, if_pos hfirst, hsecond]
            exact if_neg hinvalid
          · intro c'
            have hk : slipCode k = some (hciSlipGetUnencoded k) := by
              rw [slipCode_eq, if_neg hinvalid]
            constructor
            · intro hc'
              obtain ⟨k', l, u, x, hl, hk', rfl, hx⟩ := content_esc_iff.mp hc'
              obtain ⟨rfl, rfl⟩ := List.cons.inj hl
              rw [hk] at hk'
              exact ⟨x, by rw [Option.some.inj hk'], hx⟩
            · rintro ⟨x, rfl, hx⟩
              exact .escaped hk hx
    · refine hput [b] rest b rfl (by simp) ?_ fun c' => content_cons_iff hb
      rw [DecodeLoop.round, if_neg (by rw [hfirst]; exact hb), hfirst]
      rfl

/-- **The loop ends** within the packet: at its end with the content in the buffer, or before it for
a packet that has none that fits. -/
theorem InPacket.loop (hsize : decodeBufSize < 2 ^ 16) (hlen : body.length < 2 ^ 32)
    (behind : Mem) {fuel : ℕ} (hfuel : rest.length < fuel)
    (h : InPacket decodeBufSize body buf d rest c) :
    (∃ d' c', d.loop decodeBufSize (buffer (slipFrame body) behind) fuel = some (d', true) ∧
        InPacket decodeBufSize body buf d' [] c') ∨
      (∃ d', d.loop decodeBufSize (buffer (slipFrame body) behind) fuel = some (d', false) ∧
        ∀ i, decodeBufSize ≤ i → d'.decodeBuf i = buf i) ∧
          ∀ c', SlipContent body c' → decodeBufSize < c'.length := by
  induction fuel generalizing d rest c with
  | zero => omega
  | succ fuel ih =>
    by_cases hzero : d.len = 0
    · refine Or.inl ⟨d, c, by rw [DecodeLoop.loop, if_pos hzero], ?_⟩
      obtain rfl : rest = [] := List.length_eq_zero_iff.mp (h.len ▸ hzero)
      exact h
    · obtain ⟨d', rest', c', hd', hlt, hin⟩ | ⟨hnone, hlong⟩ := h.round hsize hlen hzero behind
      · rw [DecodeLoop.loop, if_neg hzero, hd']
        exact ih (by omega) hin
      · exact Or.inr ⟨⟨d, by rw [DecodeLoop.loop, if_neg hzero, hnone], h.outside⟩, hlong⟩

/-- The invariant at the start of the loop. -/
theorem inPacket_start (hlen : body.length + 2 < 2 ^ 32) (cb : SlipCb) :
    InPacket decodeBufSize body cb.decodeBuf (cb.decodeStart (body.length + 2)) body [] where
  taken := ⟨[], rfl, rfl⟩
  len := by
    change subU32 (body.length + 2) 2 = body.length
    rw [subU32_of_le (by omega) hlen]
    omega
  decodeLen := rfl
  fits := Nat.zero_le _
  written := rfl
  outside := fun _ _ => rfl
  content := fun c' => by simp

/-- **The invariant of the decoder's loop**, after any number of rounds. -/
theorem Rounds.inPacket (hsize : decodeBufSize < 2 ^ 16) (hlen : body.length + 2 < 2 ^ 32)
    (behind : Mem) (cb : SlipCb) (h : Rounds decodeBufSize (buffer (slipFrame body) behind)
      (cb.decodeStart (body.length + 2)) d) :
    ∃ rest c, InPacket decodeBufSize body cb.decodeBuf d rest c := by
  induction h with
  | start => exact ⟨body, [], inPacket_start hlen cb⟩
  | round _ hne hround ih =>
    obtain ⟨rest, c, hin⟩ := ih
    obtain ⟨d', rest', c', hd', -, hin'⟩ | ⟨hnone, -⟩ := hin.round hsize (by omega) hne behind
    · obtain rfl := Option.some.inj (hd'.symm.trans hround)
      exact ⟨rest', c', hin'⟩
    · rw [hnone] at hround
      cases hround

/-- **What the decoder does** with a frame of six bytes or more. -/
theorem decodePacket_cases (hsize : decodeBufSize < 2 ^ 16) (hlen : body.length + 2 < 2 ^ 32)
    (behind : Mem) (cb : SlipCb) (hsix : 6 ≤ (slipFrame body).length) {fuel : ℕ}
    (hfuel : body.length < fuel) :
    ∃ cb', cb.hciSlipDecodePacket decodeBufSize fuel (buffer (slipFrame body) behind)
        (slipFrame body).length = some cb' ∧
      (∀ i, decodeBufSize ≤ i → cb'.decodeBuf i = cb.decodeBuf i) ∧
      ((∃ c, SlipContent body c ∧ c.length ≤ decodeBufSize ∧ cb'.handled = cb.handled ++ [c]) ∨
        (∀ c, SlipContent body c → decodeBufSize < c.length) ∧ cb'.handled = cb.handled) := by
  have hframe : (slipFrame body).length = body.length + 2 := by simp [slipFrame]
  obtain ⟨d', c', hloop, hin⟩ | ⟨⟨d', hloop, houtside⟩, hnone⟩ :=
    (inPacket_start hlen cb).loop hsize (by omega) behind hfuel
  · refine ⟨{ cb with
        decodeBuf := d'.decodeBuf, decodeLen := d'.decodeLen,
        handled := cb.handled ++ [bytes d'.decodeBuf d'.decodeLen] },
      ?_, hin.outside, Or.inl ⟨c', (hin.content c').mpr ⟨[], by simp, .nil⟩, hin.fits, ?_⟩⟩
    · rw [SlipCb.hciSlipDecodePacket, if_neg (by omega), hframe, hloop]
      rfl
    · rw [hin.decodeLen, hin.written]
  · refine ⟨{ cb with decodeBuf := d'.decodeBuf, decodeLen := d'.decodeLen }, ?_, houtside,
      Or.inr ⟨hnone, rfl⟩⟩
    rw [SlipCb.hciSlipDecodePacket, if_neg (by omega), hframe, hloop]
    rfl

end Decoder

/-- **The decoder accepts its grammar**: of a string between two delimiters the handler gets the
content, where the frame has six bytes, every `0xDB` in it has its code, and the content fits the
decode buffer; else it gets nothing. What is left never underflows, the pointer stays in the packet,
and no write leaves the buffer. -/
theorem decodePacket_accepts (config : SlipConfig) (body : List UInt8)
    (hlen : body.length + 2 < 2 ^ 32) (behind : Mem) (cb : SlipCb) :
    let pPacket := buffer (slipFrame body) behind
    let Accepted := fun c => 6 ≤ (slipFrame body).length ∧ SlipContent body c ∧
      c.length ≤ config.decodeBufSize
    ∃ cb', cb.hciSlipDecodePacket config.decodeBufSize (body.length + 1) pPacket
        (slipFrame body).length = some cb' ∧
      (∀ c, Accepted c → cb'.handled = cb.handled ++ [c]) ∧
      ((¬ ∃ c, Accepted c) → cb'.handled = cb.handled) ∧
      (∀ d, Rounds config.decodeBufSize pPacket (cb.decodeStart (slipFrame body).length) d →
        d.pBuf + d.len = body.length + 1 ∧ d.decodeLen ≤ config.decodeBufSize) ∧
      ∀ i, config.decodeBufSize ≤ i → cb'.decodeBuf i = cb.decodeBuf i := by
  intro pPacket Accepted
  have hsize : config.decodeBufSize < 2 ^ 16 := config.decode_lt
  have hframe : (slipFrame body).length = body.length + 2 := by simp [slipFrame]
  have hrounds : ∀ d, Rounds config.decodeBufSize pPacket (cb.decodeStart (slipFrame body).length)
      d → d.pBuf + d.len = body.length + 1 ∧ d.decodeLen ≤ config.decodeBufSize := by
    intro d hd
    rw [hframe] at hd
    obtain ⟨rest, c, hin⟩ := hd.inPacket hsize hlen behind cb
    obtain ⟨done, hdone, hpos⟩ := hin.taken
    rw [hin.len, hin.decodeLen, hpos, hdone, List.length_append]
    exact ⟨by omega, hin.fits⟩
  by_cases hsix : (slipFrame body).length < 6
  · refine ⟨cb, if_pos hsix, ?_, fun _ => rfl, hrounds, fun _ _ => rfl⟩
    rintro c ⟨hlong, -⟩
    omega
  obtain ⟨cb', hcb', houtside, hcases⟩ :=
    decodePacket_cases hsize hlen behind cb (by omega) (Nat.lt_succ_self body.length)
  refine ⟨cb', hcb', ?_, ?_, hrounds, houtside⟩
  · rintro c ⟨-, hc, hfits⟩
    obtain ⟨c', hc', -, hhandled⟩ | ⟨hnone, -⟩ := hcases
    · rw [hhandled, hc.unique hc']
    · exact absurd (hnone c hc) (by omega)
  · intro hno
    obtain ⟨c, hc, hfits, -⟩ | ⟨-, hhandled⟩ := hcases
    · exact absurd ⟨c, by omega, hc, hfits⟩ hno
    · exact hhandled

/-- Slots of 64 bytes. -/
def smallSlots : SlipConfig :=
  { rxBufSize := 64, txBufSize := 64, decode_lt := by decide, encode_lt := by decide }

/-- A frame with an escape sequence is accepted. -/
theorem escapedFrame_accepted :
    ∃ cb', (hciSlipInit (fun _ => 0) fun _ => 0).hciSlipDecodePacket smallSlots.decodeBufSize 6
        (buffer (slipFrame [1, 0xDB, 0xDC, 2, 3]) fun _ => 0) 7 = some cb' ∧
      cb'.handled = [[1, 0xC0, 2, 3]] := by
  obtain ⟨cb', hcb', haccepts, -⟩ := decodePacket_accepts smallSlots [1, 0xDB, 0xDC, 2, 3]
    (by decide) (fun _ => 0) (hciSlipInit (fun _ => 0) fun _ => 0)
  refine ⟨cb', hcb', haccepts [1, 0xC0, 2, 3] ⟨by decide, ?_, by decide⟩⟩
  exact .plain (by decide) (.escaped rfl (.plain (by decide) (.plain (by decide) .nil)))

section Encoder

/-- Two writes, one after the other. -/
theorem EncodeLoop.put_put (l : EncodeLoop) (a b : List UInt8) :
    (l.put a).put b = l.put (a ++ b) := by
  simp only [EncodeLoop.put, memcpy_append, List.length_append, Nat.mod_add_mod, Nat.add_assoc]

/-- The writes of a loop, after the first. -/
theorem EncodeLoop.foldl_put (put : UInt8 → List UInt8) (bs first : List UInt8) (l : EncodeLoop) :
    bs.foldl (fun l b => l.put (put b)) (l.put first) = l.put (first ++ bs.flatMap put) := by
  induction bs generalizing first with
  | nil => rw [List.foldl_nil, List.flatMap_nil, List.append_nil]
  | cons b bs ih =>
    rw [List.foldl_cons, EncodeLoop.put_put, ih, List.flatMap_cons, List.append_assoc]

/-- **The encoder** leaves the encoding in its buffer, behind the room for the length. -/
theorem encodePacket_eq (pPacket : Mem) (len : ℕ) (cb : SlipCb) :
    cb.hciSlipEncodePacket pPacket len =
      { cb with
        encodeBuf := memcpy cb.encodeBuf 4
          (TcBle.HciTransport.hciSlipEncodePacket cb.oofEnable (bytes pPacket len))
        encodeLen := (TcBle.HciTransport.hciSlipEncodePacket cb.oofEnable
          (bytes pPacket len)).length % 2 ^ 16 } := by
  have hfold := EncodeLoop.foldl_put (slipEncodeByte cb.oofEnable) (bytes pPacket len)
    [slipDelimiter] { pEncodeBuf := 4, encodeLen := 0, encodeBuf := cb.encodeBuf }
  rw [bytes, List.foldl_map] at hfold
  rw [SlipCb.hciSlipEncodePacket, hfold, EncodeLoop.put_put, EncodeLoop.put]
  simp only [List.cons_append, Nat.zero_add]
  rfl

/-- The encoder sends every byte as itself or by its code. -/
theorem sends_encodeByte (oofEnable : Bool) (b : UInt8) :
    Sends slipEscape slipCode b (slipEncodeByte oofEnable b) := by
  unfold slipEncodeByte
  split_ifs with hspecial hoof
  · refine Or.inl ⟨rfl, ?_⟩
    rintro rfl
    exact absurd hoof.2 (by decide)
  · rcases hspecial with rfl | rfl | rfl | rfl <;> exact Or.inr ⟨_, rfl, rfl⟩
  · refine Or.inl ⟨rfl, ?_⟩
    rintro rfl
    exact hspecial (Or.inr (Or.inl rfl))

/-- What the encoder keeps out of the encoding. -/
theorem not_mem_encodeByte (oofEnable : Bool) (b : UInt8) :
    slipDelimiter ∉ slipEncodeByte oofEnable b ∧
      (oofEnable = true → 0x11 ∉ slipEncodeByte oofEnable b ∧
        0x13 ∉ slipEncodeByte oofEnable b) := by
  unfold slipEncodeByte
  split_ifs with hspecial hoof
  · rcases hoof.2 with rfl | rfl <;> simp [slipDelimiter, hoof.1]
  · rcases hspecial with rfl | rfl | rfl | rfl <;> revert oofEnable <;> decide
  · simp only [not_or] at hspecial
    obtain ⟨h1, -, h3, h4⟩ := hspecial
    simp [slipDelimiter, Ne.symm h1, Ne.symm h3, Ne.symm h4]

end Encoder

/-- **The SLIP round trip**: the encoding lies between its delimiters, without one inside, nor a
flow control byte where these are not to be sent; it has at most two bytes for each of the packet's
and its delimiters, and stays in the encode buffer. The decoder gives the packet to the handler. -/
theorem slip_roundTrip (config : SlipConfig) (tx rx : SlipCb) (pPacket : List UInt8)
    (hfour : 4 ≤ pPacket.length) (hdecode : pPacket.length ≤ config.decodeBufSize)
    (hencode : (hciSlipEncodePacket tx.oofEnable pPacket).length ≤ config.encodeBufSize)
    (behind behind' : Mem) :
    let sent := tx.hciSlipEncodePacket (buffer pPacket behind) pPacket.length
    let frame := bytes (adv sent.encodeBuf 4) sent.encodeLen
    (∃ body, frame = slipFrame body ∧ slipDelimiter ∉ body ∧
      (tx.oofEnable = true → 0x11 ∉ body ∧ 0x13 ∉ body)) ∧
      frame.length ≤ 2 * pPacket.length + 2 ∧
      (∀ i, i < 4 ∨ 4 + config.encodeBufSize ≤ i → sent.encodeBuf i = tx.encodeBuf i) ∧
      ∃ rx', rx.hciSlipDecodePacket config.decodeBufSize frame.length (buffer frame behind')
          frame.length = some rx' ∧
        rx'.handled = rx.handled ++ [pPacket] := by
  intro sent frame
  have hsize : config.encodeBufSize < 2 ^ 16 := config.encode_lt
  have hsends := sends_encodeByte tx.oofEnable
  have hsent : sent = _ := encodePacket_eq (buffer pPacket behind) pPacket.length tx
  rw [bytes_buffer] at hsent
  -- the encoding, with its delimiters
  have hframe : frame = slipFrame (pPacket.flatMap (slipEncodeByte tx.oofEnable)) := by
    change bytes (adv sent.encodeBuf 4) sent.encodeLen = _
    rw [hsent, Nat.mod_eq_of_lt (by omega), adv_memcpy _ 4 0]
    exact bytes_buffer _ _
  have hlong := length_flatMap_le hsends pPacket
  have hlen : (slipFrame (pPacket.flatMap (slipEncodeByte tx.oofEnable))).length =
      (pPacket.flatMap (slipEncodeByte tx.oofEnable)).length + 2 := by simp [slipFrame]
  refine ⟨⟨_, hframe, ?_, ?_⟩, ?_, ?_, ?_⟩
  · intro hmem
    obtain ⟨b, -, hb⟩ := List.mem_flatMap.mp hmem
    exact (not_mem_encodeByte tx.oofEnable b).1 hb
  · intro hoof
    constructor
    · intro hmem
      obtain ⟨b, -, hb⟩ := List.mem_flatMap.mp hmem
      exact ((not_mem_encodeByte tx.oofEnable b).2 hoof).1 hb
    · intro hmem
      obtain ⟨b, -, hb⟩ := List.mem_flatMap.mp hmem
      exact ((not_mem_encodeByte tx.oofEnable b).2 hoof).2 hb
  · rw [hframe, hlen]
    omega
  · intro i hi
    rw [hsent]
    exact memcpy_of_outside _ (by omega)
  · have hcontent : SlipContent (pPacket.flatMap (slipEncodeByte tx.oofEnable)) pPacket :=
      .flatMap hsends pPacket
    have hdsize : config.decodeBufSize < 2 ^ 16 := config.decode_lt
    have hbound : (pPacket.flatMap (slipEncodeByte tx.oofEnable)).length + 2 < 2 ^ 32 := by omega
    have hpacket := length_le_encodePacket tx.oofEnable pPacket
    change pPacket.length + 2 ≤
      (slipFrame (pPacket.flatMap (slipEncodeByte tx.oofEnable))).length at hpacket
    rw [hframe]
    obtain ⟨rx', hrx', -, ⟨c, hc, -, hhandled⟩ | ⟨hnone, -⟩⟩ :=
      decodePacket_cases hdsize hbound behind' rx (by omega)
        (show _ < (slipFrame (pPacket.flatMap (slipEncodeByte tx.oofEnable))).length by omega)
    · refine ⟨rx', hrx', ?_⟩
      rw [hhandled, hc.unique hcontent]
    · exact absurd (hnone pPacket hcontent) (by omega)

/-- Bytes that all have a meaning of their own, with flow control on. -/
theorem specialBytes_roundTrip :
    let tx := (hciSlipInit (fun _ => 0) fun _ => 0).hciSlipSetFlowCtrlEnable true
    let rx := hciSlipInit (fun _ => 0) fun _ => 0
    let pPacket : List UInt8 := [0xC0, 0xDB, 0x11, 0x13, 0xDC]
    let sent := tx.hciSlipEncodePacket (buffer pPacket fun _ => 0) pPacket.length
    let frame := bytes (adv sent.encodeBuf 4) sent.encodeLen
    ∃ rx', rx.hciSlipDecodePacket smallSlots.decodeBufSize frame.length
        (buffer frame fun _ => 0) frame.length = some rx' ∧
      rx'.handled = [pPacket] := by
  intro tx rx pPacket
  exact (slip_roundTrip smallSlots tx rx pPacket (by decide) (by decide) (by decide)
    (fun _ => 0) fun _ => 0).2.2.2

end TcBle.HciTransport
