import TcBle.Vendor.SdpDiscovery
import TcBle.Foundation.Run

/-!
# Discovery against any peer

The discovery keeps to its buffer as long as every answer that is copied fits it, and it comes to an
end when the peer, within as many answers as there are handles, sends something else than a
`READ_BY_TYPE_RSP`, or nothing.

## What is proved

* `discovery_iff` — the two conditions are exact, for every peer.
* `ends_of_advances` — a peer that tells a higher handle in each answer meets the second one.
-/

namespace TcBle.Vendor.Discovery

open TcBle.HciTransport TcBle.Foundation TcBle.Foundation.Run

variable {e : Discovery} {n : ℕ}

/-- The size of `dat`. -/
def DAT_SIZE : ℕ := 256

/-- The state after `n` requests, when the peer does what `peer` says. -/
def after (peer : ℕ → Rounds) (e : Discovery) : ℕ → Discovery
  | 0 => e
  | n + 1 => (after peer e n).step (peer n)

/-- The packet fits `dat` if it is taken for the answer. -/
def PacketFits (e : Discovery) (pkt : AttPacket) : Prop :=
    Matches e.busy pkt → pkt.l2capLen + 6 ≤ DAT_SIZE

/-- All packets that are taken for the answer, while a request is waited for, fit `dat`. -/
def RoundsFit : Rounds → Discovery → Prop
  | [], _ => True
  | round :: rounds, e => e.busy ≠ 0 →
      Along hostAttClientHandler PacketFits e round ∧
        RoundsFit rounds (round.foldl hostAttClientHandler e)

/-- All packets that are taken for the answer to the next request fit `dat`. -/
def Fits (e : Discovery) (rounds : Rounds) : Prop :=
  match e.phase with
  | .chars => RoundsFit rounds (e.request ATT_OP_READ_BY_TYPE_REQ)
  | .findInfo _ => RoundsFit rounds (e.request ATT_OP_FIND_INFORMATION_REQ)
  | .readRef _ => RoundsFit rounds (e.request ATT_OP_READ_REQ)
  | .success | .timeout => True

/-- The peer sends something else than a `READ_BY_TYPE_RSP`, or nothing in time. -/
def Ends (e : Discovery) (rounds : Rounds) : Prop :=
  e.phase = .chars ∧ ((e.hostAttServiceWaitEvent ATT_OP_READ_BY_TYPE_REQ rounds).2 = true ∨
    (e.hostAttServiceWaitEvent ATT_OP_READ_BY_TYPE_REQ rounds).1.dat 6 ≠ ATT_OP_READ_BY_TYPE_RSP)

/-! ### Waiting -/

theorem handler_top (e : Discovery) (pkt : AttPacket) :
    (e.hostAttClientHandler pkt).top ≤ DAT_SIZE ↔ e.top ≤ DAT_SIZE ∧ PacketFits e pkt := by
  unfold hostAttClientHandler PacketFits
  split_ifs with h
  · simp only [h, forall_const]
    exact Nat.max_le
  · simp [h]

theorem foldl_handler_top (round : List AttPacket) (e : Discovery) :
    (round.foldl hostAttClientHandler e).top ≤ DAT_SIZE ↔
    e.top ≤ DAT_SIZE ∧ Along hostAttClientHandler PacketFits e round := by
  induction round generalizing e with
  | nil => simp
  | cons pkt round ih => rw [List.foldl_cons, ih, handler_top, along_cons, and_assoc]

theorem waitLoop_top (rounds : Rounds) (e : Discovery) :
    (waitLoop rounds e).1.top ≤ DAT_SIZE ↔ e.top ≤ DAT_SIZE ∧ RoundsFit rounds e := by
  induction rounds generalizing e with
  | nil => simp [waitLoop, RoundsFit]
  | cons round rounds ih =>
    rw [waitLoop, RoundsFit]
    by_cases h : e.busy = 0
    · simp [h]
    · rw [if_neg h, ih, foldl_handler_top]
      simp only [h, ne_eq, not_false_eq_true, forall_const, and_assoc]

/-- An answer that was copied is no longer than `dat` allows. -/
def LenOk (e : Discovery) : Prop := e.busy = 0 → e.l2capLen + 6 ≤ DAT_SIZE

theorem LenOk.handler (h : e.LenOk) {pkt : AttPacket} (hfits : PacketFits e pkt) :
    (e.hostAttClientHandler pkt).LenOk := by
  unfold hostAttClientHandler
  split_ifs with hmatch
  · intro _
    have hlen : l2capLen { e with
        dat := memcpy e.dat 0 (bytes pkt.p (pkt.l2capLen + 6))
        top := max e.top (pkt.l2capLen + 6)
        busy := 0 } = pkt.l2capLen := by
      have hbyte : ∀ i < pkt.l2capLen + 6, memcpy e.dat 0 (bytes pkt.p (pkt.l2capLen + 6)) i =
        pkt.p i := by
        intro i hi
        rw [memcpy, if_pos (Nat.zero_le i), Nat.sub_zero, getD_bytes pkt.p hi]
      simp only [l2capLen, AttPacket.l2capLen, u16At, adv] at hbyte ⊢
      rw [hbyte 2 (by omega), hbyte 3 (by omega)]
    rw [hlen]
    exact hfits hmatch
  · exact h

theorem LenOk.foldl (h : e.LenOk) {round : List AttPacket}
    (hfits : Along hostAttClientHandler PacketFits e round) :
    (round.foldl hostAttClientHandler e).LenOk := by
  induction round generalizing e with
  | nil => exact h
  | cons pkt round ih => exact ih (h.handler hfits.1) hfits.2

/-- **What a wait that is not over time leaves**: an answer whose length `dat` allows. -/
theorem LenOk.waitLoop (h : e.LenOk) {rounds : Rounds} (hfits : RoundsFit rounds e)
    (hok : (Discovery.waitLoop rounds e).2 = false) :
    (Discovery.waitLoop rounds e).1.l2capLen + 6 ≤ DAT_SIZE := by
  induction rounds generalizing e with
  | nil => exact absurd hok nofun
  | cons round rounds ih =>
    rw [Discovery.waitLoop] at hok ⊢
    by_cases hbusy : e.busy = 0
    · rw [if_pos hbusy]
      exact h hbusy
    · rw [if_neg hbusy] at hok ⊢
      obtain ⟨hround, hrest⟩ := hfits hbusy
      exact ih (h.foldl hround) hrest hok

theorem reqBusy_ne_zero (e : Discovery) {op : ℕ} (h : op ≠ 0) : e.reqBusy op ≠ 0 := by
  unfold reqBusy
  intro hzero
  rw [Nat.or_eq_zero_iff] at hzero
  rw [Nat.shiftLeft_eq] at hzero
  omega

/-! ### Reading the answer -/

theorem char128_top_eq (pd : ℕ) (e : Discovery) : (e.char128 pd).top =
    if e.p128.length < e.n128 then max (max e.top (pd + 5)) (pd + 21) else max e.top (pd + 5) := by
  rw [char128]
  split_ifs with hroom
  · rfl
  · rfl

theorem char16_top_eq (pd : ℕ) (e : Discovery) : (e.char16 pd).top =
    if e.p16.length < e.n16 then max (max e.top (pd + 5)) (pd + 7) else max e.top (pd + 5) := by
  rw [char16]
  split_ifs with hroom
  · rfl
  · rfl

/-- Where `top` is after a characteristic of `size` bytes at `pd`, kept or not. -/
theorem charTop_bounds (kept : Prop) [Decidable kept] (top pd : ℕ) {size : ℕ} (hsize : 5 ≤ size) :
    top ≤ (if kept then max (max top (pd + 5)) (pd + size) else max top (pd + 5)) ∧
      (top ≤ DAT_SIZE → pd + size ≤ DAT_SIZE →
        (if kept then max (max top (pd + 5)) (pd + size) else max top (pd + 5)) ≤ DAT_SIZE) := by
  split_ifs
  · exact ⟨(le_max_left _ _).trans (le_max_left _ _),
      fun htop hpd => max_le (max_le htop (by omega)) hpd⟩
  · exact ⟨le_max_left _ _, fun htop hpd => max_le htop (by omega)⟩

theorem char128_bounds (pd : ℕ) (e : Discovery) : e.top ≤ (e.char128 pd).top ∧
    (e.top ≤ DAT_SIZE → pd + 21 ≤ DAT_SIZE → (e.char128 pd).top ≤ DAT_SIZE) := by
  rw [char128_top_eq]
  exact charTop_bounds _ _ _ (by omega)

theorem char16_bounds (pd : ℕ) (e : Discovery) : e.top ≤ (e.char16 pd).top ∧
    (e.top ≤ DAT_SIZE → pd + 7 ≤ DAT_SIZE → (e.char16 pd).top ≤ DAT_SIZE) := by
  rw [char16_top_eq]
  exact charTop_bounds _ _ _ (by omega)

/-- The loop over the characteristics reads as many as come before the last byte of the answer. -/
theorem charLoop_top {size : ℕ} {char : ℕ → Discovery → Discovery}
    (hchar : ∀ pd e, e.top ≤ DAT_SIZE → pd + size ≤ DAT_SIZE → (char pd e).top ≤ DAT_SIZE)
    (len pd : ℕ) (e : Discovery)
    (htop : e.top ≤ DAT_SIZE) (hlen : pd + size * ((len - 1) / size) ≤ DAT_SIZE) :
    (charLoop size char len pd e).top ≤ DAT_SIZE := by
  induction len using Nat.strong_induction_on generalizing pd e with
  | _ len ih =>
    rw [charLoop]
    split_ifs with h
    · obtain ⟨hpos, hlt⟩ := h
      have hdiv : (len - 1) / size = (len - size - 1) / size + 1 := by
        rw [← Nat.add_div_right _ hpos]
        congr 1
        omega
      rw [hdiv, Nat.mul_add, Nat.mul_one] at hlen
      exact ih (len - size) (by omega) (pd + size) (char pd e) (hchar pd e htop (by omega))
        (by omega)
    · exact htop

theorem readByTypeRsp_top (htop : e.top ≤ DAT_SIZE) (hlen : e.l2capLen + 6 ≤ DAT_SIZE) :
    e.readByTypeRsp.top ≤ DAT_SIZE := by
  have hdat : DAT_SIZE = 256 := rfl
  unfold readByTypeRsp
  split_ifs
  · exact charLoop_top (fun pd e => (char128_bounds pd e).2) _ _ e htop (by omega)
  · exact charLoop_top (fun pd e => (char16_bounds pd e).2) _ _ e htop (by omega)
  · exact htop

theorem findRef_top (dat : Mem) (n pd top : ℕ) (htop : top ≤ DAT_SIZE)
    (hn : pd + 4 * ((n + 3) / 4) ≤ DAT_SIZE) :
    (findRef dat n pd top).2 ≤ DAT_SIZE := by
  induction n using Nat.strong_induction_on generalizing pd top with
  | _ n ih =>
    rw [findRef]
    split_ifs with hpos
    · have hread : max top (pd + 4) ≤ DAT_SIZE := max_le htop (by omega)
      simp only
      split_ifs
      · exact hread
      · exact hread
      · exact ih (n - 4) (by omega) (pd + 4) _ hread (by omega)
    · exact htop

/-! ### One step -/

/-- What is read after a wait only moves `top` up. -/
theorem charLoop_le {size : ℕ} {char : ℕ → Discovery → Discovery}
    (hchar : ∀ pd e, e.top ≤ (char pd e).top)
    (len pd : ℕ) (e : Discovery) : e.top ≤ (charLoop size char len pd e).top := by
  induction len using Nat.strong_induction_on generalizing pd e with
  | _ len ih =>
    rw [charLoop]
    split_ifs with h
    · exact (hchar pd e).trans (ih (len - size) (by omega) _ _)
    · exact le_refl _

theorem readByTypeRsp_le (e : Discovery) : e.top ≤ e.readByTypeRsp.top := by
  unfold readByTypeRsp
  split_ifs
  · exact charLoop_le (fun pd e => (char128_bounds pd e).1) _ _ _
  · exact charLoop_le (fun pd e => (char16_bounds pd e).1) _ _ _
  · exact le_refl _

theorem findRef_le (dat : Mem) (n pd top : ℕ) : top ≤ (findRef dat n pd top).2 := by
  induction n using Nat.strong_induction_on generalizing pd top with
  | _ n ih =>
    rw [findRef]
    split_ifs with hpos
    · simp only
      split_ifs
      · exact le_max_left _ _
      · exact le_max_left _ _
      · exact (le_max_left _ _).trans (ih (n - 4) (by omega) _ _)
    · exact le_refl _

/-- A request and its wait. -/
theorem wait_top {op : ℕ} (rounds : Rounds) (htop : e.top ≤ DAT_SIZE) :
    (e.hostAttServiceWaitEvent op rounds).1.top ≤ DAT_SIZE ↔ RoundsFit rounds (e.request op) := by
  have hreq : (e.request op).top ≤ DAT_SIZE := max_le htop (by decide)
  rw [hostAttServiceWaitEvent, waitLoop_top]
  exact and_iff_right hreq

theorem wait_len {op : ℕ} (hop : op ≠ 0) {rounds : Rounds} (hfits : RoundsFit rounds (e.request op))
    (hok : ¬(e.hostAttServiceWaitEvent op rounds).2 = true) :
    (e.hostAttServiceWaitEvent op rounds).1.l2capLen + 6 ≤ DAT_SIZE :=
  LenOk.waitLoop (fun hzero => absurd hzero (e.reqBusy_ne_zero hop)) hfits
    (Bool.eq_false_iff.mpr hok)

/-- An answer that is read within its length. -/
structure Bounded (answer : Discovery → Discovery) : Prop where
  /-- Reading moves `top` up. -/
  le : ∀ e, e.top ≤ (answer e).top
  /-- It stays inside of `dat`. -/
  top : ∀ e, e.top ≤ DAT_SIZE → e.l2capLen + 6 ≤ DAT_SIZE → (answer e).top ≤ DAT_SIZE

theorem bounded_chars : Bounded charsAnswer := by
  refine ⟨fun e => ?_, fun e htop hlen => ?_⟩
  · unfold charsAnswer
    split_ifs
    · exact le_refl _
    · exact (le_max_left _ _).trans (readByTypeRsp_le { e with top := max e.top 8 })
  · unfold charsAnswer
    split_ifs
    · exact htop
    · exact readByTypeRsp_top (max_le htop (by decide)) hlen

theorem bounded_findInfo (i : ℕ) : Bounded (findInfoAnswer i) := by
  refine ⟨fun e => ?_, fun e htop hlen => ?_⟩
  · unfold findInfoAnswer
    split_ifs
    · exact (le_max_left _ _).trans (findRef_le _ _ _ _)
    · exact le_max_left _ _
  · have hdat : DAT_SIZE = 256 := rfl
    unfold findInfoAnswer
    split_ifs
    · exact findRef_top _ _ _ _ (max_le htop (by decide)) (by omega)
    · exact max_le htop (by decide)

theorem bounded_readRef (i : ℕ) : Bounded (readRefAnswer i) := by
  refine ⟨fun e => ?_, fun e htop _ => ?_⟩
  · unfold readRefAnswer
    split_ifs
    · exact le_max_left _ _
    · exact le_refl _
  · unfold readRefAnswer
    split_ifs
    · exact max_le htop (by decide)
    · exact htop

theorem Bounded.ask_top {answer : Discovery → Discovery} (h : Bounded answer)
    (htop : e.top ≤ DAT_SIZE) {op : ℕ}
    (hop : op ≠ 0) (rounds : Rounds) :
    (e.ask op answer rounds).top ≤ DAT_SIZE ↔ RoundsFit rounds (e.request op) := by
  rw [← wait_top rounds htop]
  unfold ask
  simp only
  constructor
  · intro hstep
    refine le_trans ?_ hstep
    split_ifs
    · exact le_refl _
    · exact h.le _
  · intro hwait
    split_ifs with htime
    · exact hwait
    · exact h.top _ hwait (wait_len hop ((wait_top rounds htop).mp hwait) htime)

/-- **One step stays inside `dat`** exactly when what is copied fits it. -/
theorem step_top (htop : e.top ≤ DAT_SIZE) (rounds : Rounds) :
    (e.step rounds).top ≤ DAT_SIZE ↔ e.Fits rounds := by
  unfold step Fits
  cases e.phase with
  | chars => exact bounded_chars.ask_top htop (by decide) rounds
  | findInfo i => exact (bounded_findInfo i).ask_top htop (by decide) rounds
  | readRef i => exact (bounded_readRef i).ask_top htop (by decide) rounds
  | success => exact iff_of_true htop trivial
  | timeout => exact iff_of_true htop trivial

/-! ### The end of the discovery -/

/-- How many requests are left at most, once the characteristics are known. -/
def remaining (e : Discovery) : ℕ :=
  match e.phase with
  | .chars => 0
  | .findInfo i => 2 * (e.p16.length - i)
  | .readRef i => 2 * (e.p16.length - i) - 1
  | .success | .timeout => 0

/-- **The invariant**: the entries fit `p16`, and the entry in question is one of them. -/
structure Sane (n : ℕ) (e : Discovery) : Prop where
  /-- The number of entries of `p16`. -/
  n16 : e.n16 = n
  /-- The entries. -/
  le : e.p16.length ≤ n
  /-- The entry in question. -/
  lt : ∀ i, e.phase = .findInfo i ∨ e.phase = .readRef i → i < e.p16.length
  /-- The start handle. -/
  s_lt : e.s < 2 ^ 16

/-- What a wait leaves alone. -/
structure Kept (e e' : Discovery) : Prop where
  /-- The entries. -/
  p16 : e'.p16 = e.p16
  /-- Their number. -/
  n16 : e'.n16 = e.n16
  /-- What comes next. -/
  phase : e'.phase = e.phase
  /-- The start handle. -/
  s : e'.s = e.s

theorem Kept.trans {e e' e'' : Discovery} (h : Kept e e') (h' : Kept e' e'') : Kept e e'' :=
  ⟨h'.p16.trans h.p16, h'.n16.trans h.n16, h'.phase.trans h.phase, h'.s.trans h.s⟩

theorem Kept.sane {e e' : Discovery} (h : Kept e e') (he : e.Sane n) : e'.Sane n := by
  refine ⟨h.n16.trans he.n16, ?_, fun i hi => ?_, ?_⟩
  · rw [h.p16]
    exact he.le
  · rw [h.phase] at hi
    rw [h.p16]
    exact he.lt i hi
  · rw [h.s]
    exact he.s_lt

theorem kept_handler (e : Discovery) (pkt : AttPacket) : Kept e (e.hostAttClientHandler pkt) := by
  unfold hostAttClientHandler
  split_ifs
  · exact ⟨rfl, rfl, rfl, rfl⟩
  · exact ⟨rfl, rfl, rfl, rfl⟩

theorem kept_waitLoop (rounds : Rounds) (e : Discovery) : Kept e (waitLoop rounds e).1 := by
  induction rounds generalizing e with
  | nil => exact ⟨rfl, rfl, rfl, rfl⟩
  | cons round rounds ih =>
    rw [waitLoop]
    split_ifs
    · exact ⟨rfl, rfl, rfl, rfl⟩
    · refine Kept.trans ?_ (ih _)
      exact List.foldlRecOn (motive := Kept e) round _ ⟨rfl, rfl, rfl, rfl⟩ fun e' h pkt _ =>
        h.trans (kept_handler e' pkt)

theorem kept_wait (op : ℕ) (rounds : Rounds) (e : Discovery) :
    Kept e (e.hostAttServiceWaitEvent op rounds).1 := by
  have hrequest : Kept e (e.request op) := ⟨rfl, rfl, rfl, rfl⟩
  exact hrequest.trans (kept_waitLoop rounds (e.request op))

/-- The next report is one of the entries that are left. -/
theorem nextReport_cases (i : ℕ) (e : Discovery) :
    e.nextReport i = .success ∨ ∃ j, i ≤ j ∧ j < e.p16.length ∧ e.nextReport i = .findInfo j := by
  unfold nextReport
  split
  · rename_i j hfind
    have hmem := List.mem_range'_1.mp (List.mem_of_find?_eq_some hfind)
    exact Or.inr ⟨j, hmem.1, by omega, rfl⟩
  · exact Or.inl rfl

/-- The discovery goes on with the next report. -/
theorem Sane.goOn (h : e.Sane n) {i : ℕ} {f : Discovery} (hlen : f.p16.length = e.p16.length)
    (hn16 : f.n16 = e.n16)
    (hs : f.s = e.s) (hphase : f.phase = e.nextReport i) :
    f.Sane n ∧ f.phase ≠ .chars ∧ f.remaining ≤ 2 * (e.p16.length - i) := by
  rcases nextReport_cases i e with hnext | ⟨j, hij, hj, hnext⟩
  · rw [hnext] at hphase
    refine ⟨⟨hn16.trans h.n16, by rw [hlen]; exact h.le, fun k hk => ?_, by rw [hs]; exact h.s_lt⟩,
      by rw [hphase]; decide, ?_⟩
    · rw [hphase] at hk
      cases hk with
      | inl hk =>
        exact absurd hk nofun
      | inr hk =>
        exact absurd hk nofun
    · rw [remaining, hphase]
      exact Nat.zero_le _
  · rw [hnext] at hphase
    refine ⟨⟨hn16.trans h.n16, by rw [hlen]; exact h.le, fun k hk => ?_, by rw [hs]; exact h.s_lt⟩,
      by rw [hphase]; nofun, ?_⟩
    · rw [hphase] at hk
      cases hk with
      | inl hk =>
        rw [hlen, ← SdpPhase.findInfo.inj hk]
        exact hj
      | inr hk =>
        exact absurd hk nofun
    · rw [remaining, hphase]
      simp only
      omega

/-- The discovery runs out of time. -/
theorem Sane.timeout (h : e.Sane n) : Sane n { e with phase := .timeout } :=
  ⟨h.n16, h.le, fun _ hi => by rcases hi with hi | hi <;> exact absurd hi nofun, h.s_lt⟩

theorem u16At_lt (p : Mem) : u16At p < 2 ^ 16 := by
  have h₀ := (p 0).toNat_lt
  have h₁ := (p 1).toNat_lt
  unfold u16At
  omega

/-- What each round of the loop over the characteristics keeps. -/
theorem charLoop_keeps {P : Discovery → Prop} {size : ℕ} {char : ℕ → Discovery → Discovery}
    (hchar : ∀ pd e, P e → P (char pd e)) (len pd : ℕ) (e : Discovery) (he : P e) :
    P (charLoop size char len pd e) := by
  induction len using Nat.strong_induction_on generalizing pd e with
  | _ len ih =>
    rw [charLoop]
    split_ifs with h
    · exact ih (len - size) (by omega) _ _ (hchar pd e he)
    · exact he

/-- A characteristic. -/
theorem Sane.char16 (h : e.Sane n) (hphase : e.phase = .chars) (pd : ℕ) :
    (e.char16 pd).Sane n ∧ (e.char16 pd).phase = .chars := by
  have hlt : ∀ i, e.phase = .findInfo i ∨ e.phase = .readRef i → False := by
    intro i hi
    rw [hphase] at hi
    cases hi with
    | inl hi =>
      exact absurd hi nofun
    | inr hi =>
      exact absurd hi nofun
  unfold Discovery.char16
  simp only
  split_ifs with hroom
  · refine ⟨⟨h.n16, ?_, fun i hi => (hlt i hi).elim, u16At_lt _⟩, hphase⟩
    rw [List.length_append, List.length_singleton, ← h.n16]
    exact hroom
  · exact ⟨⟨h.n16, h.le, fun i hi => (hlt i hi).elim, u16At_lt _⟩, hphase⟩

theorem Sane.char128 (h : e.Sane n) (hphase : e.phase = .chars) (pd : ℕ) :
    (e.char128 pd).Sane n ∧ (e.char128 pd).phase = .chars := by
  unfold Discovery.char128
  simp only
  split_ifs
  · exact ⟨⟨h.n16, h.le, h.lt, u16At_lt _⟩, hphase⟩
  · exact ⟨⟨h.n16, h.le, h.lt, u16At_lt _⟩, hphase⟩

theorem Sane.readByTypeRsp (h : e.Sane n) (hphase : e.phase = .chars) :
    e.readByTypeRsp.Sane n ∧ e.readByTypeRsp.phase = .chars := by
  unfold Discovery.readByTypeRsp
  split_ifs
  · exact charLoop_keeps (P := fun e => e.Sane n ∧ e.phase = .chars)
      (fun pd e he => he.1.char128 he.2 pd) _ _ e ⟨h, hphase⟩
  · exact charLoop_keeps (P := fun e => e.Sane n ∧ e.phase = .chars)
      (fun pd e he => he.1.char16 he.2 pd) _ _ e ⟨h, hphase⟩
  · exact ⟨h, hphase⟩

/-- **A request for characteristics**: the discovery goes on so, unless the peer ends it. -/
theorem Sane.chars (h : e.Sane n) (hphase : e.phase = .chars) (rounds : Rounds) :
    (e.step rounds).Sane n ∧ ((e.step rounds).phase = .chars ↔ ¬e.Ends rounds) ∧
    (e.step rounds).remaining ≤ 2 * n := by
  have hkept := kept_wait ATT_OP_READ_BY_TYPE_REQ rounds e
  have hw := hkept.sane h
  have hstep : e.step rounds = e.ask ATT_OP_READ_BY_TYPE_REQ charsAnswer rounds := by
    rw [step, hphase]
  rw [hstep, Ends, ask]
  set w := e.hostAttServiceWaitEvent ATT_OP_READ_BY_TYPE_REQ rounds with hwdef
  simp only [hphase, true_and]
  split_ifs with htime
  · refine ⟨hw.timeout, iff_of_false nofun (not_not.mpr (Or.inl htime)), Nat.zero_le _⟩
  · unfold charsAnswer
    split_ifs with hop
    · obtain ⟨hsane, hne, hrem⟩ :=
        hw.goOn (i := 0) (f := { w.1 with phase := w.1.nextReport 0 }) rfl rfl rfl rfl
      have hle := hw.le
      refine ⟨hsane, iff_of_false hne (not_not.mpr (Or.inr hop)), hrem.trans (by omega)⟩
    · have hread : Sane n { w.1 with top := max w.1.top 8 } := ⟨hw.n16, hw.le, hw.lt, hw.s_lt⟩
      obtain ⟨hsane, hchars⟩ := hread.readByTypeRsp (hkept.phase.trans hphase)
      refine ⟨hsane, iff_of_true hchars ?_, ?_⟩
      · rintro (htrue | hne)
        · exact htime htrue
        · exact hop hne
      · rw [remaining, hchars]
        exact Nat.zero_le _

/-- A request for a report, whatever follows its answer. -/
theorem Sane.ask_report {answer : Discovery → Discovery} {m : ℕ} (h : e.Sane n)
    (hanswer : ∀ f, Kept e f → f.Sane n →
      (answer f).Sane n ∧ (answer f).phase ≠ .chars ∧ (answer f).remaining ≤ m)
    (op : ℕ) (rounds : Rounds) :
    (e.ask op answer rounds).Sane n ∧ (e.ask op answer rounds).phase ≠ .chars ∧
      (e.ask op answer rounds).remaining ≤ m := by
  have hkept := kept_wait op rounds e
  have hw := hkept.sane h
  rw [Discovery.ask]
  simp only
  split_ifs with htime
  · exact ⟨hw.timeout, nofun, Nat.zero_le _⟩
  · exact hanswer _ hkept hw

/-- The descriptors of entry `i`: its report reference is asked for, or the next report. -/
theorem Sane.findInfoAnswer (h : e.Sane n) {i : ℕ} (hi : i < e.p16.length) :
    (e.findInfoAnswer i).Sane n ∧ (e.findInfoAnswer i).phase ≠ .chars ∧
      (e.findInfoAnswer i).remaining ≤ 2 * (e.p16.length - i) - 1 := by
  unfold Discovery.findInfoAnswer
  simp only
  split_ifs with hop hfound
  · refine ⟨⟨h.n16, h.le, fun j hj => ?_, h.s_lt⟩, nofun, le_refl _⟩
    cases hj with
    | inl hj =>
      exact absurd hj nofun
    | inr hj =>
      rw [← SdpPhase.readRef.inj hj]
      exact hi
  · obtain ⟨hsane, hne, hle⟩ := h.goOn (i := i + 1) (f := { e with
      top := (findRef e.dat (e.l2capLen - 2) 8 (max e.top 8)).2
      phase := e.nextReport (i + 1) }) rfl rfl rfl rfl
    exact ⟨hsane, hne, hle.trans (by omega)⟩
  · obtain ⟨hsane, hne, hle⟩ := h.goOn (i := i + 1) (f := { e with
      top := max e.top 8
      phase := e.nextReport (i + 1) }) rfl rfl rfl rfl
    exact ⟨hsane, hne, hle.trans (by omega)⟩

/-- The report reference of entry `i`: the next report is asked for. -/
theorem Sane.readRefAnswer (h : e.Sane n) {i : ℕ} (hi : i < e.p16.length) :
    (e.readRefAnswer i).Sane n ∧ (e.readRefAnswer i).phase ≠ .chars ∧
      (e.readRefAnswer i).remaining ≤ 2 * (e.p16.length - i) - 1 - 1 := by
  unfold Discovery.readRefAnswer
  split_ifs with hop
  · obtain ⟨hsane, hne, hle⟩ := h.goOn (i := i + 1) (f := { e with
      top := max e.top 9
      p16 := e.p16.modify i fun entry => { entry with ref := u16At (adv e.dat 7) }
      phase := e.nextReport (i + 1) }) (List.length_modify ..) rfl rfl rfl
    exact ⟨hsane, hne, hle.trans (by omega)⟩
  · obtain ⟨hsane, hne, hle⟩ :=
      h.goOn (i := i + 1) (f := { e with phase := e.nextReport (i + 1) }) rfl rfl rfl rfl
    exact ⟨hsane, hne, hle.trans (by omega)⟩

/-- **The other requests**: there is one less to come. -/
theorem Sane.report (h : e.Sane n) (hphase : e.phase ≠ .chars) (rounds : Rounds) :
    (e.step rounds).Sane n ∧ (e.step rounds).phase ≠ .chars ∧
      (e.step rounds).remaining ≤ e.remaining - 1 := by
  rw [Discovery.step]
  cases hcase : e.phase with
  | chars => exact absurd hcase hphase
  | findInfo i =>
    have hi := h.lt i (Or.inl hcase)
    rw [show e.remaining = 2 * (e.p16.length - i) by rw [remaining, hcase]]
    refine h.ask_report (fun f hkept hf => ?_) _ rounds
    rw [← hkept.p16] at hi ⊢
    exact hf.findInfoAnswer hi
  | readRef i =>
    have hi := h.lt i (Or.inr hcase)
    rw [show e.remaining = 2 * (e.p16.length - i) - 1 by rw [remaining, hcase]]
    refine h.ask_report (fun f hkept hf => ?_) _ rounds
    rw [← hkept.p16] at hi ⊢
    exact hf.readRefAnswer hi
  | success =>
    have hzero : e.remaining = 0 := by rw [remaining, hcase]
    exact ⟨h, hphase, by rw [hzero]⟩
  | timeout =>
    have hzero : e.remaining = 0 := by rw [remaining, hcase]
    exact ⟨h, hphase, by rw [hzero]⟩

/-- No request is left. -/
theorem Sane.done (h : e.Sane n) (hphase : e.phase ≠ .chars) (hrem : e.remaining = 0) : e.Done := by
  cases hcase : e.phase with
  | chars => exact absurd hcase hphase
  | findInfo i =>
    have hi := h.lt i (Or.inl hcase)
    rw [remaining, hcase] at hrem
    simp only at hrem
    omega
  | readRef i =>
    have hi := h.lt i (Or.inr hcase)
    rw [remaining, hcase] at hrem
    simp only at hrem
    omega
  | success => exact Or.inl hcase
  | timeout => exact Or.inr hcase

/-! ### Runs -/

theorem Sane.step (h : e.Sane n) (rounds : Rounds) : (e.step rounds).Sane n := by
  by_cases hphase : e.phase = .chars
  · exact (h.chars hphase rounds).1
  · exact (h.report hphase rounds).1

theorem Sane.after (h : e.Sane n) (peer : ℕ → Rounds) (N : ℕ) : (after peer e N).Sane n := by
  induction N with
  | zero => exact h
  | succ N ih => exact ih.step (peer N)

/-- The discovery asks for characteristics until the peer ends that. -/
theorem Sane.after_chars (h : e.Sane n) (hphase : e.phase = .chars) (peer : ℕ → Rounds) (N : ℕ) :
    (Discovery.after peer e N).phase = .chars ↔
      ∀ k < N, ¬(Discovery.after peer e k).Ends (peer k) := by
  induction N with
  | zero => exact iff_of_true hphase fun k hk => absurd hk (Nat.not_lt_zero k)
  | succ N ih =>
    have hN := h.after peer N
    rw [Nat.forall_lt_succ_right, ← ih]
    by_cases hchars : (Discovery.after peer e N).phase = .chars
    · rw [and_iff_right hchars]
      exact (hN.chars hchars (peer N)).2.1
    · exact iff_of_false (hN.report hchars (peer N)).2.1 fun hboth => hchars hboth.1

/-- After that, each request leaves one less. -/
theorem Sane.after_report (h : e.Sane n) (hphase : e.phase ≠ .chars) (peer : ℕ → Rounds) (N : ℕ) :
    (Discovery.after peer e N).phase ≠ .chars ∧ (Discovery.after peer e N).remaining ≤
      e.remaining - N := by
  induction N with
  | zero => exact ⟨hphase, le_refl _⟩
  | succ N ih =>
    obtain ⟨hne, hrem⟩ := ih
    obtain ⟨-, hne', hrem'⟩ := (h.after peer N).report hne (peer N)
    exact ⟨hne', hrem'.trans (by omega)⟩

theorem after_add (peer : ℕ → Rounds) (e : Discovery) (M N : ℕ) :
    after peer e (M + N) = after (fun k => peer (M + k)) (after peer e M) N := by
  induction N with
  | zero => rfl
  | succ N ih =>
    rw [← Nat.add_assoc, after, ih]
    rfl

/-- **The discovery is over** at most `2 n` requests after the peer has ended the
characteristics. -/
theorem Sane.done_of_ends (h : e.Sane n) {peer : ℕ → Rounds} {k N : ℕ} (hk : k < N)
    (hends : (Discovery.after peer e k).Ends (peer k)) :
    (Discovery.after peer e (N + 2 * n)).Done := by
  obtain ⟨-, hiff, hrem⟩ := (h.after peer k).chars hends.1 (peer k)
  have hne : (Discovery.after peer e (k + 1)).phase ≠ .chars := fun hchars => hiff.mp hchars hends
  obtain ⟨m, hm⟩ := Nat.exists_eq_add_of_le (show k + 1 + 2 * n ≤ N + 2 * n by omega)
  rw [hm, Nat.add_assoc (k + 1), after_add]
  have hsane := h.after peer (k + 1)
  obtain ⟨hne', hrem'⟩ := hsane.after_report hne (fun i => peer (k + 1 + i)) (2 * n + m)
  refine (hsane.after _ _).done hne' ?_
  have hzero : (Discovery.after peer e (k + 1)).remaining ≤ 2 * n := hrem
  omega

theorem sane_init (handle n16 n128 : ℕ) (dat : Mem) : (init handle n16 n128 dat).Sane n16 :=
  ⟨rfl, Nat.zero_le _, fun _ hi => by rcases hi with hi | hi <;> exact absurd hi nofun,
    show 1 < 2 ^ 16 by decide⟩

/-- **What the discovery is meant to be**, against the peer: it keeps to its buffer, asks for
characteristics at most as many times as there are handles, and then comes to its end. -/
structure Safe (peer : ℕ → Rounds) (e : Discovery) : Prop where
  /-- Reads and writes. -/
  inside : ∀ n, (after peer e n).top ≤ DAT_SIZE
  /-- The requests for characteristics. -/
  chars : (after peer e (2 ^ 16)).phase ≠ .chars
  /-- All requests. -/
  done : (after peer e (2 ^ 16 + 2 * e.n16)).Done

/-- **The discovery is safe** exactly against a peer whose answers fit the buffer, and one of whose
first 2^16 answers is something else than a `READ_BY_TYPE_RSP`, or does not come in time. -/
theorem discovery_iff (handle n16 n128 : ℕ) (dat : Mem) (peer : ℕ → Rounds) :
    Safe peer (init handle n16 n128 dat) ↔
      (∀ n, (after peer (init handle n16 n128 dat) n).Fits (peer n)) ∧
        ∃ n < 2 ^ 16, (after peer (init handle n16 n128 dat) n).Ends (peer n) := by
  have hsane := sane_init handle n16 n128 dat
  have hchars := hsane.after_chars rfl peer (2 ^ 16)
  set e := init handle n16 n128 dat with he
  constructor
  · rintro ⟨hinside, hphase, -⟩
    refine ⟨fun n => (step_top (hinside n) (peer n)).mp (hinside (n + 1)), ?_⟩
    by_contra hnone
    refine hphase (hchars.mpr fun k hk hends => hnone ⟨k, hk, hends⟩)
  · rintro ⟨hfits, k, hk, hends⟩
    refine ⟨fun n => ?_, fun hphase => hchars.mp hphase k hk hends, hsane.done_of_ends hk hends⟩
    induction n with
    | zero => exact Nat.zero_le _
    | succ n ih => exact (step_top ih (peer n)).mpr (hfits n)

/-- An answer of no characteristics: `l2capLen` is 2, `chanId` 4, `opcode` `ATT_OP_READ_BY_TYPE_RSP`
and `datalen` 0. -/
def emptyAnswer : Mem := fun i => [2, 6, 2, 0, 4, 0, 9, 0].getD i 0

/-- A request for characteristics that is answered so is made again. -/
theorem step_emptyAnswer (hphase : e.phase = .chars) (hhandle : e.handle = 0) :
    (e.step [[⟨0, emptyAnswer⟩], []]).phase = .chars ∧
    (e.step [[⟨0, emptyAnswer⟩], []]).handle = 0 := by
  have hbusy : (e.request ATT_OP_READ_BY_TYPE_REQ).busy = 0x80000 := by
    show e.handle ||| 0x08 <<< 16 = 0x80000
    rw [hhandle]
    rfl
  have hmatch : Matches (e.request ATT_OP_READ_BY_TYPE_REQ).busy ⟨0, emptyAnswer⟩ := by
    rw [hbusy]
    decide
  have hop : memcpy (e.request ATT_OP_READ_BY_TYPE_REQ).dat 0 (bytes emptyAnswer 8) 6 =
    ATT_OP_READ_BY_TYPE_RSP := rfl
  have hlen : memcpy (e.request ATT_OP_READ_BY_TYPE_REQ).dat 0 (bytes emptyAnswer 8) 7 = 0 := rfl
  have hne : ¬(e.request ATT_OP_READ_BY_TYPE_REQ).busy = 0 := by
    rw [hbusy]
    decide
  have hcopy : (⟨0, emptyAnswer⟩ : AttPacket).l2capLen + 6 = 8 := rfl
  have hwait : e.hostAttServiceWaitEvent ATT_OP_READ_BY_TYPE_REQ [[⟨0, emptyAnswer⟩], []] =
      ((e.request ATT_OP_READ_BY_TYPE_REQ).hostAttClientHandler ⟨0, emptyAnswer⟩, false) := by
    rw [hostAttServiceWaitEvent, waitLoop, if_neg hne, List.foldl_cons, List.foldl_nil, waitLoop,
      if_pos]
    rw [hostAttClientHandler, if_pos hmatch]
  rw [step, hphase]
  simp only [ask, hwait, Bool.false_eq_true, if_false, hostAttClientHandler, if_pos hmatch,
    charsAnswer, hcopy, hop, hlen, ne_eq, not_true_eq_false, readByTypeRsp]
  exact ⟨hphase, hhandle⟩

/-- **A peer that always answers so** is asked for characteristics for ever. -/
theorem emptyAnswers_unsafe :
    ¬Safe (fun _ => [[⟨0, emptyAnswer⟩], []]) (init 0 8 8 fun _ => 0) := by
  intro hsafe
  have hchars : ∀ n,
      (after (fun _ => [[⟨0, emptyAnswer⟩], []]) (init 0 8 8 fun _ => 0) n).phase = .chars ∧
      (after (fun _ => [[⟨0, emptyAnswer⟩], []]) (init 0 8 8 fun _ => 0) n).handle = 0 := by
    intro n
    induction n with
    | zero => exact ⟨rfl, rfl⟩
    | succ n ih => exact step_emptyAnswer ih.1 ih.2
  exact hsafe.chars (hchars (2 ^ 16)).1

/-- A peer that tells a higher handle in each answer ends the discovery within as many answers as
there are handles. -/
theorem ends_of_advances (handle n16 n128 : ℕ) (dat : Mem) (peer : ℕ → Rounds)
    (h : ∀ n, (after peer (init handle n16 n128 dat) n).phase = .chars →
      ¬(after peer (init handle n16 n128 dat) n).Ends (peer n) →
        (after peer (init handle n16 n128 dat) n).s <
        (after peer (init handle n16 n128 dat) (n + 1)).s) :
    ∃ n < 2 ^ 16, (after peer (init handle n16 n128 dat) n).Ends (peer n) := by
  have hsane := sane_init handle n16 n128 dat
  set e := init handle n16 n128 dat with he
  by_contra hnone
  have hgoes : ∀ N ≤ 2 ^ 16, N < (after peer e N).s := by
    intro N hN
    induction N with
    | zero => exact Nat.zero_lt_one
    | succ N ih =>
      have hphase : (after peer e N).phase = .chars :=
        (hsane.after_chars rfl peer N).mpr fun k hk hends => hnone ⟨k, by omega, hends⟩
      exact Nat.lt_of_le_of_lt (ih (by omega)) (h N hphase fun hends => hnone ⟨N, by omega, hends⟩)
  have hlast := hgoes (2 ^ 16) (le_refl _)
  exact absurd (hsane.after peer (2 ^ 16)).s_lt (by omega)

end TcBle.Vendor.Discovery
