import TcBle.Foundation.Run
import TcBle.Vendor.RcIrPulses

/-!
# What is heard of a remote control

A receiver of NEC codes samples the infrared line of a remote control whose keys are pressed and
released at any times, and that is interrupted anywhere.

## What is proved

* `RcIr.pwm_cases` — what the hardware does in a step.
* `Phase.step` — what the sender is doing, and what was heard so far, through every step.
* `remote_heard` — in every run, every code is heard as it is, with its repeats, or not at all.
* `remote_buffer` — and the buffer is not written while it is played, nor does the device sleep.
-/

namespace TcBle.Vendor

open TcBle.Foundation TcBle.Foundation.Pulses TcBle.HciTransport Nec

namespace RcIr

variable {boot : ℕ} {s : RcIr}

theorem pwm_of_none (h : s.dma = none) : s.pwm = s.low 1 := by
  rw [pwm, h]

/-- What the hardware does while it plays: it plays on, or it has played everything and says so. -/
theorem pwm_cases (h : s.dma ≠ none) :
    (∃ d line, s.pwm = { s with dma := some d, line := line } ∧ s.line <+: line ∧
      line ++ s.pwm.left = s.line ++ s.left) ∨
    (s.pwm = { s with dma := none, irqSta := true } ∧ s.left = []) := by
  obtain ⟨d, hdma⟩ := Option.ne_none_iff_exists'.mp h
  by_cases hrest : d.rest = 0
  · cases hword : (s.data.take (s.dmaLen / 2))[d.next]? with
    | none =>
      have hpwm : s.pwm = { s with dma := none, irqSta := true } := by
        rw [pwm, hdma]
        simp only [hrest, hword, ne_eq, not_true_eq_false, if_false]
      refine Or.inr ⟨hpwm, ?_⟩
      rw [left, hdma]
      simp only [hrest, List.drop_eq_nil_of_le (List.getElem?_eq_none_iff.mp hword)]
      rfl
    | some w =>
      have hpwm : s.pwm = { s with
          dma := some ⟨d.next + 1, (wordPulse w).1, (wordPulse w).2⟩ } := by
        rw [pwm, hdma]
        simp only [hrest, hword, ne_eq, not_true_eq_false, if_false]
      refine Or.inl ⟨_, s.line, hpwm, List.prefix_refl _, ?_⟩
      obtain ⟨hlt, hget⟩ := List.getElem?_eq_some_iff.mp hword
      rw [hpwm, left, left, hdma]
      simp only [hrest, List.drop_eq_getElem_cons hlt, hget, List.map_cons, samples_cons,
        List.replicate_zero, List.nil_append]
  · have hpwm : s.pwm = { s with
        line := s.line ++ [d.level], dma := some { d with rest := d.rest - 1 } } := by
      rw [pwm, hdma]
      simp only [hrest, ne_eq, not_false_eq_true, if_true]
    refine Or.inl ⟨_, _, hpwm, List.prefix_append _ _, ?_⟩
    obtain ⟨n, hn⟩ := Nat.exists_eq_succ_of_ne_zero hrest
    rw [hpwm, left, left, hdma]
    simp only [hn, Nat.succ_sub_one, List.replicate_succ, List.append_assoc,
      List.cons_append, List.nil_append]

/-- What `ir_nec_send` sets, apart from the time. -/
def sent (s : RcIr) : List UInt16 × ℕ × Bool × Sending :=
  (s.data, s.dmaLen, s.repeatEnable, s.isSending)

/-- A statement depends on nothing else. -/
theorem sent_exec_congr {s t : RcIr} (h : s.sent = t.sent) (x : SendStep) :
    (s.exec boot x).sent = (t.exec boot x).sent := by
  simp only [sent, Prod.mk.injEq] at h
  obtain ⟨hdata, hlen, hrepeat, hsending⟩ := h
  cases x <;> simp [exec, sent, pwmStart, hdata, hlen, hrepeat, hsending]

theorem sent_foldl_congr {s t : RcIr} (h : s.sent = t.sent) (steps : List SendStep) :
    (steps.foldl (exec boot) s).sent = (steps.foldl (exec boot) t).sent := by
  induction steps generalizing s t with
  | nil => exact h
  | cons x steps ih => exact ih (sent_exec_congr h x)

/-- Before the last statement nothing is played, and no interrupt is due. -/
theorem exec_silent (boot : ℕ) {x : SendStep} (hx : x ≠ .start) (hsta : s.irqSta = false)
    (hfresh : s.isSending ≠ .again) :
    (s.exec boot x).dma = s.dma ∧ (s.exec boot x).irqSta = false ∧
      (s.exec boot x).line = s.line ∧ (s.exec boot x).isSending ≠ .again := by
  cases x with
  | start => exact absurd rfl hx
  | clearIrq => exact ⟨rfl, rfl, rfl, hfresh⟩
  | isSending => exact ⟨rfl, hsta, rfl, show Sending.data ≠ .again by decide⟩
  | _ => exact ⟨rfl, hsta, rfl, hfresh⟩

/-- What is left when the hardware starts. -/
theorem left_pwmStart (h : s.dmaLen = s.data.length * 2) :
    s.pwmStart.left = samples (s.data.map wordPulse) := by
  have htake : s.data.take (s.dmaLen / 2) = s.data := by
    rw [h, Nat.mul_div_cancel _ Nat.two_pos, List.take_length]
  rw [left, pwmStart]
  simp only [htake, List.replicate_zero, List.nil_append, List.drop_zero]

/-- **The interrupt** at the end of what was played: the hardware starts to play five repeats, after
a space. -/
theorem rcIrIrqPrc_cases (boot : ℕ) (hsta : s.irqSta = true) (henabled : s.repeatEnable = true)
    (hsending : s.isSending ≠ .none) :
    ∃ k data, s.rcIrIrqPrc boot =
        { s with
          isSending := .again, data := data, dmaLen := data.length * 2
          irqSta := false }.pwmStart ∧
      samples (data.map wordPulse) =
        List.replicate k false ++ samples (fiveRepeats.map wordPulse) := by
  obtain ⟨lastCmd, isSending, repeatEnable, start, data, dmaLen, irqSta, dma, line⟩ := s
  simp only at hsta henabled hsending
  subst hsta henabled
  cases isSending with
  | none => exact absurd rfl hsending
  | data =>
    obtain ⟨k, hk⟩ := wordPulse_waitToRepeat (clockTime (boot + 421 * line.length)) start
    refine ⟨k, waveformWaitToRepeat (clockTime (boot + 421 * line.length)) start :: fiveRepeats,
      rfl, ?_⟩
    rw [List.map_cons, hk, samples_cons]
  | again => exact ⟨0, fiveRepeats, rfl, rfl⟩

/-- The sender is reset when it is released while it sends. -/
theorem irSendRelease_of_sending (h : s.isSending ≠ .none) :
    s.irSendRelease = { s with
      lastCmd := 0xff, isSending := .none, irqSta := false, dma := none
      line := s.line ++ [false] } := by
  rw [irSendRelease]
  simp only [if_pos h]
  rfl

theorem irSendRelease_of_none (h : s.isSending = .none) :
    s.irSendRelease = { s with lastCmd := 0xff, isSending := .none, irqSta := false } := by
  rw [irSendRelease]
  simp only [if_neg (not_not.mpr h)]

/-- Releasing the sender leaves nothing of an initialisation right before. -/
theorem irSendRelease_rcIrInit (s : RcIr) : s.rcIrInit.irSendRelease = s.irSendRelease := by
  have hsame : s.rcIrInit.isSending = s.isSending := rfl
  by_cases h : s.isSending = .none
  · rw [irSendRelease_of_none h, irSendRelease_of_none (hsame.trans h)]
    rfl
  · rw [irSendRelease_of_sending h, irSendRelease_of_sending (hsame ▸ h)]
    rfl

theorem foldl_put (words : List UInt16) (s : RcIr) :
    (words.map SendStep.put).foldl (exec boot) s = { s with data := s.data ++ words } := by
  induction words generalizing s with
  | nil => simp
  | cons w words ih => simp [exec, ih]

/-- What the statements before the last set. -/
theorem sent_necSteps (s : RcIr) (addr1 addr2 cmd : UInt8) :
    ((necSteps addr1 addr2 cmd).foldl (exec boot) s).sent =
      (necWords addr1 addr2 cmd, (necWords addr1 addr2 cmd).length * 2, true, .data) := by
  rw [necSteps, List.cons_append, List.foldl_cons, List.foldl_append, foldl_put]
  rfl

theorem start_notMem_necSteps (addr1 addr2 cmd : UInt8) : .start ∉ necSteps addr1 addr2 cmd := by
  simp [necSteps]

end RcIr

namespace Remote

variable {boot : ℕ} {s : Remote}

/-- Releasing a key releases the sender, also when it was not initialised. -/
theorem irDispatchRelease_eq (s : Remote) :
    ∃ initialed, s.irDispatchRelease =
      { s with ir := s.ir.irSendRelease, irHwInitialed := initialed } := by
  rw [irDispatchRelease, irInit]
  split
  · exact ⟨_, rfl⟩
  · refine ⟨true, ?_⟩
    rw [RcIr.irSendRelease_rcIrInit]

/-- What the sender does not notice. -/
structure Same (s t : Remote) : Prop where
  ir : t.ir = s.ir
  todo : t.todo = s.todo
  irNotReleased : t.irNotReleased = s.irNotReleased
  keyScanTick : t.keyScanTick = s.keyScanTick
  codes : t.codes = s.codes

/-- **A change of the keys** is nothing to the sender, or it is to send a code, while no infrared
key is held, or it is released. -/
theorem keyChangeProc_cases (boot : ℕ) (s : Remote) (keys : RemoteKeys) :
    Same s (s.keyChangeProc boot keys) ∨
    (s.irNotReleased = false ∧ ∃ t cmd, Same s t ∧
      s.keyChangeProc boot keys =
        { t.irDispatchSend boot 0x88 cmd with irNotReleased := true }) ∨
    (s.irNotReleased = true ∧ (s.keyChangeProc boot keys).ir = s.ir.irSendRelease ∧
      (s.keyChangeProc boot keys).todo = s.todo ∧ (s.keyChangeProc boot keys).codes = s.codes ∧
      (s.keyChangeProc boot keys).keyScanTick = s.keyScanTick) := by
  simp only [keyChangeProc]
  split
  · exact Or.inl ⟨rfl, rfl, rfl, rfl, rfl⟩
  split
  · split
    · exact Or.inl ⟨rfl, rfl, rfl, rfl, rfl⟩
    split
    · exact Or.inl ⟨rfl, rfl, rfl, rfl, rfl⟩
    split
    · exact Or.inl ⟨rfl, rfl, rfl, rfl, rfl⟩
    split
    case isTrue => exact Or.inl ⟨rfl, rfl, rfl, rfl, rfl⟩
    case isFalse hpressed =>
      exact Or.inr (Or.inl ⟨Bool.eq_false_of_not_eq_true hpressed,
        { s with keyNotReleased := true, keyType := .irKey }, _, ⟨rfl, rfl, rfl, rfl, rfl⟩, rfl⟩)
  · split
    case isTrue hpressed =>
      obtain ⟨initialed, hrelease⟩ := irDispatchRelease_eq
        { s with keyNotReleased := false, irNotReleased := false }
      rw [hrelease]
      exact Or.inr (Or.inr ⟨hpressed.2, rfl, rfl, rfl, rfl⟩)
    case isFalse => exact Or.inl ⟨rfl, rfl, rfl, rfl, rfl⟩

end Remote

/-! ### The quiet between two codes -/

/-- The line is low since the sender was last reset, in the last scan of the keys or before it. -/
def LowSince (boot : ℕ) (tick : UInt32) (line : List Bool) : Prop :=
  ∃ pre k, line = pre ++ List.replicate k false ∧ (receive pre).level = false ∧
    (Rests pre ∨ ∃ scanned, tick = clockTime (boot + 421 * scanned) ∧
      pre.length ≤ scanned + 1 ∧ scanned ≤ line.length)

section LowSince

variable {boot : ℕ} {tick : UInt32} {line : List Bool}

theorem LowSince.low (h : LowSince boot tick line) (n : ℕ) :
    LowSince boot tick (line ++ List.replicate n false) ∧
      (receive (line ++ List.replicate n false)).heard = (receive line).heard := by
  obtain ⟨pre, k, rfl, hlevel, hquiet⟩ := h
  have hread : ∀ j, (receive (pre ++ List.replicate j false)).heard = (receive pre).heard := by
    intro j
    rw [receive_append, Reader.read_replicate_of_eq hlevel.symm]
  rw [List.append_assoc, List.replicate_append_replicate, hread, hread]
  refine ⟨⟨pre, k + n, rfl, hlevel, ?_⟩, rfl⟩
  cases hquiet with
  | inl hrests => exact Or.inl hrests
  | inr hscanned =>
    obtain ⟨scanned, htick, hpre, hle⟩ := hscanned
    refine Or.inr ⟨scanned, htick, hpre, hle.trans ?_⟩
    simp only [List.length_append, List.length_replicate]
    omega

/-- **The time between two scans** is long enough for the receiver. -/
theorem LowSince.rests (h : LowSince boot tick line)
    (hscan : clockTimeExceed (clockTime (boot + 421 * line.length)) tick (10 * 1000) = true) :
    Rests line := by
  obtain ⟨pre, k, rfl, hlevel, hquiet⟩ := h
  cases hquiet with
  | inl hrests => exact (hrests.low k).1
  | inr hscanned =>
    obtain ⟨scanned, rfl, hpre, hle⟩ := hscanned
    have htime := (clockTimeExceed_clockTime
      (Nat.add_le_add_left (Nat.mul_le_mul_left 421 hle) boot) (10 : UInt16)).mp hscan
    have hspan : 160000 < boot + 421 * (pre ++ List.replicate k false).length -
        (boot + 421 * scanned) := Nat.lt_of_lt_of_le htime (Nat.mod_le _ _)
    have hlong : 206 ≤ k := by
      rw [List.length_append, List.length_replicate] at hspan
      omega
    obtain ⟨j, rfl⟩ := Nat.exists_eq_add_of_le hlong
    rw [← List.replicate_append_replicate, ← List.append_assoc]
    refine (Rests.low ?_ j).1
    rw [Rests, receive_append]
    exact (Reader.resting_of_long pulse_of_long hlevel).1

theorem Rests.lowSince (h : Rests line) : LowSince boot tick line :=
  ⟨line, 0, (List.append_nil _).symm, h.level, Or.inl h⟩

end LowSince

/-! ### What the sender is doing -/

/-- What the sender is doing, and what was heard so far. -/
inductive Phase (boot : ℕ) (s : Remote) : Prop where
  /-- It is not sending. -/
  | silent (todo : s.todo = []) (sending : s.ir.isSending = .none) (dma : s.ir.dma = none)
      (sta : s.ir.irqSta = false) (low : LowSince boot s.keyScanTick s.ir.line)
      (heard : Heard s.codes (receive s.ir.line).heard)
  /-- The main thread is somewhere in `ir_nec_send`. -/
  | preparing {steps : List SendStep} {old : List Message} {addr1 addr2 cmd : UInt8}
      (pressed : s.irNotReleased = true) (todo : s.todo = steps ++ [.start])
      (start : .start ∉ steps) (dma : s.ir.dma = none) (sta : s.ir.irqSta = false)
      (fresh : s.ir.isSending ≠ .again)
      (sent : (steps.foldl (RcIr.exec boot) s.ir).sent =
        (necWords addr1 addr2 cmd, (necWords addr1 addr2 cmd).length * 2, true, .data))
      (rests : Rests s.ir.line) (codes : s.codes = old ++ [.code addr1 addr2 cmd])
      (heard : Heard old (receive s.ir.line).heard)
  /-- A code, or repeats, are played. -/
  | playing {pre body : List Bool} {out : List Message}
      (pressed : s.irNotReleased = true) (todo : s.todo = []) (sending : s.ir.isSending ≠ .none)
      (enabled : s.ir.repeatEnable = true) (sta : s.ir.irqSta = false) (dma : s.ir.dma ≠ none)
      (line : s.ir.line ++ s.ir.left = pre ++ body)
      (conveys : (receive pre).Conveys pulse .idle body out) (long : pre.length ≤ s.ir.line.length)
      (heard : ∀ o, o <+: out → Heard s.codes ((receive pre).heard ++ o))
      (last : HeardLast s.codes ((receive pre).heard ++ out))
      (again : s.ir.isSending = .again →
        ∀ o, o <+: out → HeardLast s.codes ((receive pre).heard ++ o))
  /-- They were played, and the interrupt has not been served. -/
  | played (pressed : s.irNotReleased = true) (todo : s.todo = [])
      (sending : s.ir.isSending ≠ .none) (enabled : s.ir.repeatEnable = true)
      (dma : s.ir.dma = none) (sta : s.ir.irqSta = true) (rests : Rests s.ir.line)
      (last : HeardLast s.codes (receive s.ir.line).heard)

namespace Phase

variable {boot : ℕ} {s : Remote}

/-- What was played so far of the samples of this phase. -/
theorem exists_part {pre body line left : List Bool} (h : line ++ left = pre ++ body)
    (hlong : pre.length ≤ line.length) : ∃ part, part <+: body ∧ line = pre ++ part := by
  obtain ⟨part, rfl⟩ : pre <+: line :=
    List.prefix_of_prefix_length_le (by rw [h]; exact List.prefix_append _ _)
      (List.prefix_append line left) hlong
  rw [List.append_assoc] at h
  exact ⟨part, ⟨left, List.append_cancel_left h⟩, rfl⟩

/-- **What was heard** in any phase. -/
theorem heard_codes (h : Phase boot s) : Heard s.codes (receive s.ir.line).heard := by
  cases h with
  | silent todo sending dma sta low heard => exact heard
  | preparing pressed todo start dma sta fresh sent rests codes heard =>
    rw [codes]
    exact heard.unheard _
  | playing pressed todo sending enabled sta dma line conveys long heard last again =>
    obtain ⟨part, hpart, hline⟩ := exists_part line long
    obtain ⟨o, ho, hheard⟩ := conveys.part part hpart
    rw [hline, receive_append, hheard]
    exact heard o ho
  | played pressed todo sending enabled dma sta rests last => exact last.heard

/-- The hardware goes on. -/
theorem pwm (h : Phase boot s) : Phase boot { s with ir := s.ir.pwm } := by
  cases h with
  | silent todo sending dma sta low heard =>
    have hlow := low.low 1
    rw [RcIr.pwm_of_none dma]
    exact .silent todo sending dma sta hlow.1 (hlow.2 ▸ heard)
  | preparing pressed todo start dma sta fresh sent rests codes heard =>
    have hlow := rests.low 1
    have hsame : (s.ir.low 1).sent = s.ir.sent := rfl
    rw [RcIr.pwm_of_none dma]
    exact .preparing pressed todo start dma sta fresh ((RcIr.sent_foldl_congr hsame _).trans sent)
      hlow.1 codes (hlow.2 ▸ heard)
  | @playing pre body out pressed todo sending enabled sta dma line conveys long heard last again =>
    obtain ⟨d, line', hpwm, hmore, hline⟩ | ⟨hpwm, hleft⟩ := RcIr.pwm_cases dma
    · rw [line, hpwm] at hline
      rw [hpwm]
      exact .playing pressed todo sending enabled sta (Option.some_ne_none d) hline conveys
        (long.trans hmore.length_le) heard last again
    · rw [hleft, List.append_nil] at line
      have hrest := conveys.rest
      have hheard := conveys.heard
      rw [← receive_append, ← line] at hrest hheard
      rw [hpwm]
      exact .played pressed todo sending enabled rfl rfl hrest (hheard ▸ last)
  | played pressed todo sending enabled dma sta rests last =>
    have hlow := rests.low 1
    rw [RcIr.pwm_of_none dma]
    exact .played pressed todo sending enabled dma sta hlow.1 (hlow.2 ▸ last)

/-- An interrupt. -/
theorem irq (h : Phase boot s) : Phase boot { s with ir := s.ir.rcIrIrqPrc boot } := by
  by_cases hsta : s.ir.irqSta = true
  · cases h with
    | silent todo sending dma sta low heard => exact absurd (hsta.symm.trans sta) (by decide)
    | preparing pressed todo start dma sta => exact absurd (hsta.symm.trans sta) (by decide)
    | playing pressed todo sending enabled sta => exact absurd (hsta.symm.trans sta) (by decide)
    | played pressed todo sending enabled dma sta rests last =>
      have hagain : ∀ o, o <+: List.replicate 5 Message.again →
          HeardLast s.codes ((receive s.ir.line).heard ++ o) := by
        rintro o ho
        obtain ⟨-, ho⟩ := List.prefix_replicate_iff.mp ho
        rw [ho]
        exact last.again _
      obtain ⟨k, data, hirq, hdata⟩ := RcIr.rcIrIrqPrc_cases boot hsta enabled sending
      rw [hirq]
      exact .playing pressed todo (show Sending.again ≠ .none by decide) enabled rfl
        (Option.some_ne_none _) (congrArg (s.ir.line ++ ·) ((RcIr.left_pwmStart rfl).trans hdata))
        (conveys_fiveRepeats rests k) le_rfl (fun o ho => (hagain o ho).heard) (last.again 5)
        fun _ => hagain
  · have hsame : s.ir.rcIrIrqPrc boot = s.ir := if_neg hsta
    rw [hsame]
    exact h

/-- The main thread goes on. -/
theorem loop (h : Phase boot s) : Phase boot (s.step boot .loop) := by
  cases h with
  | silent todo sending dma sta low heard =>
    rw [Remote.step, todo]
    exact .silent todo sending dma sta low heard
  | playing pressed todo sending enabled sta dma line conveys long heard last again =>
    rw [Remote.step, todo]
    exact .playing pressed todo sending enabled sta dma line conveys long heard last again
  | played pressed todo sending enabled dma sta rests last =>
    rw [Remote.step, todo]
    exact .played pressed todo sending enabled dma sta rests last
  | @preparing steps old addr1 addr2 cmd pressed todo start dma sta fresh sent rests codes heard =>
    cases steps with
    | nil =>
      -- The hardware starts to play the code.
      simp only [RcIr.sent, List.foldl_nil, Prod.mk.injEq] at sent
      obtain ⟨hdata, hlen, hrepeat, hsending⟩ := sent
      have hleft := RcIr.left_pwmStart (hlen.trans (congrArg (·.length * 2) hdata).symm)
      have hne : s.ir.isSending ≠ .none := by
        rw [hsending]
        decide
      have hpart : ∀ o, o <+: [Message.code addr1 addr2 cmd] →
          Heard s.codes ((receive s.ir.line).heard ++ o) := by
        rintro o ho
        rw [codes]
        rcases List.prefix_cons_iff.mp ho with rfl | ⟨more, rfl, hmore⟩
        · rw [List.append_nil]
          exact heard.unheard _
        · rw [List.prefix_nil.mp hmore]
          exact (heard.last _).heard
      have hlast : HeardLast s.codes ((receive s.ir.line).heard ++ [.code addr1 addr2 cmd]) := by
        rw [codes]
        exact heard.last _
      rw [hdata] at hleft
      rw [Remote.step, todo]
      refine .playing pressed rfl hne hrepeat sta (Option.some_ne_none _)
        (congrArg (s.ir.line ++ ·) hleft) (conveys_necWords rests addr1 addr2 cmd) le_rfl hpart
        hlast fun hagain => ?_
      exact absurd (hsending.symm.trans hagain) (by decide)
    | cons x steps =>
      have hx : x ≠ .start := fun hx => start (hx ▸ List.mem_cons_self)
      obtain ⟨hdma, hsta, hline, hfresh⟩ := RcIr.exec_silent boot hx sta fresh
      rw [Remote.step, todo, List.cons_append]
      exact .preparing pressed rfl (fun hin => start (List.mem_cons_of_mem _ hin))
        (hdma.trans dma) hsta hfresh sent (hline ▸ rests) codes (hline ▸ heard)

/-- What the sender is doing depends on nothing else. -/
theorem congr (h : Phase boot s) {t : Remote} (hsame : Remote.Same s t) : Phase boot t := by
  obtain ⟨hir, htodo, hpressed, htick, hcodes⟩ := hsame
  obtain ⟨ir, todo, initialed, pressed, mode, type, released, tick, codes⟩ := t
  simp only at hir htodo hpressed hcodes htick
  subst hir htodo hpressed hcodes htick
  cases h with
  | silent a b c d e f => exact .silent a b c d e f
  | preparing a b c d e f g h i j => exact .preparing a b c d e f g h i j
  | playing a b c d e f g h i j k l => exact .playing a b c d e f g h i j k l
  | played a b c d e f g h => exact .played a b c d e f g h

/-- A scan of the keys. -/
theorem scanned (h : Phase boot s)
    (hscan : clockTimeExceed (s.ir.now boot) s.keyScanTick (10 * 1000) = true) :
    Phase boot { s with keyScanTick := s.ir.now boot } ∧
      (s.ir.isSending = .none → s.todo = [] → Rests s.ir.line) := by
  cases h with
  | silent todo sending dma sta low heard =>
    have hrests := low.rests hscan
    exact ⟨.silent todo sending dma sta hrests.lowSince heard, fun _ _ => hrests⟩
  | preparing pressed todo start dma sta fresh sent rests codes heard =>
    exact ⟨.preparing pressed todo start dma sta fresh sent rests codes heard, fun _ _ => rests⟩
  | playing pressed todo sending enabled sta dma line conveys long heard last again =>
    exact ⟨.playing pressed todo sending enabled sta dma line conveys long heard last again,
      fun hsending => absurd hsending sending⟩
  | played pressed todo sending enabled dma sta rests last =>
    exact ⟨.played pressed todo sending enabled dma sta rests last,
      fun hsending => absurd hsending sending⟩

theorem irInit (h : Phase boot s) (hpressed : s.irNotReleased = false) :
    Phase boot s.irInit ∧ s.irInit.irNotReleased = false ∧ s.irInit.ir.line = s.ir.line := by
  rw [Remote.irInit]
  split
  · exact ⟨h, hpressed, rfl⟩
  cases h with
  | silent todo sending dma sta low heard =>
    exact ⟨.silent todo sending dma rfl low heard, hpressed, rfl⟩
  | preparing pressed => exact absurd (hpressed.symm.trans pressed) (by decide)
  | playing pressed => exact absurd (hpressed.symm.trans pressed) (by decide)
  | played pressed => exact absurd (hpressed.symm.trans pressed) (by decide)

/-- A key is pressed that sends a code. -/
theorem irNecSend (h : Phase boot s) (hpressed : s.irNotReleased = false) (hrests : Rests s.ir.line)
    (addr1 addr2 cmd : UInt8) :
    Phase boot { s.irNecSend boot addr1 addr2 cmd with irNotReleased := true } := by
  cases h with
  | preparing pressed => exact absurd (hpressed.symm.trans pressed) (by decide)
  | playing pressed => exact absurd (hpressed.symm.trans pressed) (by decide)
  | played pressed => exact absurd (hpressed.symm.trans pressed) (by decide)
  | silent todo sending dma sta low heard =>
    have hcheck : s.ir.irIsSending boot = s.ir := if_neg fun hsending => hsending.1 sending
    have hfree : ¬s.ir.isSending ≠ .none := not_not.mpr sending
    rw [Remote.irNecSend]
    split
    · simp only [hcheck, if_neg hfree]
      exact .preparing rfl rfl (RcIr.start_notMem_necSteps addr1 addr2 cmd) dma sta
        (sending ▸ show Sending.none ≠ .again by decide) (RcIr.sent_necSteps _ addr1 addr2 cmd)
        hrests rfl heard
    · exact .silent todo sending dma sta low heard

/-- The sender is released. -/
theorem irSendRelease (h : Phase boot s) (htodo : s.todo = [])
    (htick : s.keyScanTick = s.ir.now boot) {t : Remote} (hir : t.ir = s.ir.irSendRelease)
    (htodo' : t.todo = []) (hcodes : t.codes = s.codes) (htick' : t.keyScanTick = s.keyScanTick) :
    Phase boot t := by
  -- The sender is reset: the line is low from here on.
  have hreset : s.ir.isSending ≠ .none → Heard s.codes (receive (s.ir.line ++ [false])).heard →
      Phase boot t := by
    intro hsending hheard
    rw [RcIr.irSendRelease_of_sending hsending] at hir
    have hlow : LowSince boot t.keyScanTick (s.ir.line ++ [false]) := by
      refine ⟨_, 0, (List.append_nil _).symm, ?_, Or.inr ⟨s.ir.line.length, htick'.trans htick, ?_⟩⟩
      · rw [receive_append]
        exact Reader.level_sample _ false
      · rw [List.length_append, List.length_singleton]
        omega
    refine .silent htodo' ?_ ?_ ?_ ?_ ?_
    all_goals rw [hir]
    · exact hlow
    · rw [hcodes]
      exact hheard
  cases h with
  | preparing pressed todo => simp [htodo] at todo
  | silent todo sending dma sta low heard =>
    rw [RcIr.irSendRelease_of_none sending] at hir
    refine .silent htodo' ?_ ?_ ?_ ?_ ?_
    all_goals rw [hir]
    · exact dma
    · rw [htick']
      exact low
    · rw [hcodes]
      exact heard
  | playing pressed todo sending enabled sta dma line conveys long heard last again =>
    obtain ⟨part, hpart, hline⟩ := exists_part line long
    obtain ⟨o, ho, hcut⟩ := conveys.cut part hpart
    refine hreset sending ?_
    rw [hline, List.append_assoc, receive_append, hcut]
    exact heard o ho
  | played pressed todo sending enabled dma sta rests last =>
    refine hreset sending ?_
    rw [show [false] = List.replicate 1 false from rfl, (rests.low 1).2]
    exact last.heard

theorem sending_of_not_pressed (h : Phase boot s) (hpressed : s.irNotReleased = false) :
    s.ir.isSending = .none := by
  cases h with
  | silent todo sending => exact sending
  | preparing pressed => exact absurd (hpressed.symm.trans pressed) (by decide)
  | playing pressed => exact absurd (hpressed.symm.trans pressed) (by decide)
  | played pressed => exact absurd (hpressed.symm.trans pressed) (by decide)

/-- A change of the keys. -/
theorem keyChangeProc (h : Phase boot s) (htodo : s.todo = [])
    (htick : s.keyScanTick = s.ir.now boot) (hrests : s.ir.isSending = .none → Rests s.ir.line)
    (keys : RemoteKeys) : Phase boot (s.keyChangeProc boot keys) := by
  obtain hsame | ⟨hpressed, t, cmd, hsame, hsend⟩ | ⟨-, hir, htodo', hcodes, htick'⟩ :=
    s.keyChangeProc_cases boot keys
  · exact h.congr hsame
  · obtain ⟨hphase, hfree, hline⟩ := (h.congr hsame).irInit (hsame.irNotReleased.trans hpressed)
    rw [hsend]
    refine hphase.irNecSend hfree ?_ 0x88 (~~~0x88) cmd
    rw [hline, hsame.ir]
    exact hrests (h.sending_of_not_pressed hpressed)
  · exact h.irSendRelease htodo htick hir (htodo'.trans htodo) hcodes htick'

/-- **One step** of the remote control. -/
theorem step (h : Phase boot s) (e : RemoteEvent) : Phase boot (s.step boot e) := by
  cases e with
  | pwm => exact h.pwm
  | irq => exact h.irq
  | loop => exact h.loop
  | scan detKey =>
    rw [Remote.step]
    split
    case isFalse => exact h
    case isTrue htodo =>
      rw [Remote.procKeyboard]
      split
      case isFalse => exact h
      case isTrue hscan =>
        obtain ⟨hphase, hrests⟩ := h.scanned hscan
        cases detKey with
        | none => exact hphase
        | some keys =>
          exact hphase.keyChangeProc htodo rfl (fun hsending => hrests hsending htodo) keys
  | sleep n =>
    rw [Remote.step]
    split
    case isFalse => exact h
    case isTrue hsleep =>
      cases h with
      | silent todo sending dma sta low heard =>
        have hlow := low.low n
        exact .silent todo rfl rfl rfl hlow.1 (hlow.2 ▸ heard)
      | preparing pressed todo => simp [hsleep.1] at todo
      | playing pressed todo sending => exact absurd hsleep.2.2 sending
      | played pressed todo sending => exact absurd hsleep.2.2 sending

theorem init (boot : ℕ) : Phase boot Remote.init :=
  .silent rfl rfl rfl rfl ⟨[], 0, rfl, rfl, Or.inl ⟨rfl, fun _ _ => rfl⟩⟩ ⟨[], .nil, rfl⟩

/-- **Every run** of the remote control. -/
theorem run (boot : ℕ) (es : List RemoteEvent) :
    Phase boot (es.foldl (Remote.step boot) Remote.init) := by
  induction es using List.reverseRecOn with
  | nil => exact init boot
  | append_singleton es e ih =>
    rw [List.foldl_concat]
    exact ih.step e

/-- While the hardware plays, nothing is due, and the main thread is not in `ir_nec_send`. -/
theorem of_dma (h : Phase boot s) (hdma : s.ir.dma ≠ none) :
    s.todo = [] ∧ s.ir.irqSta = false ∧ s.ir.isSending ≠ .none := by
  cases h with
  | silent todo sending dma => exact absurd dma hdma
  | preparing pressed todo start dma => exact absurd dma hdma
  | playing pressed todo sending enabled sta => exact ⟨todo, sta, sending⟩
  | played pressed todo sending enabled dma => exact absurd dma hdma

/-- Nothing is due while the main thread is in `ir_nec_send`. -/
theorem sta_of_todo (h : Phase boot s) (htodo : s.todo ≠ []) : s.ir.irqSta = false := by
  cases h with
  | silent todo => exact absurd todo htodo
  | preparing pressed todo start dma sta => exact sta
  | playing pressed todo => exact absurd todo htodo
  | played pressed todo => exact absurd todo htodo

end Phase

/-- **What is heard of a remote control**, in every run: of each code that `ir_nec_send` began to
send, one after the other, the code as it is and then repeats, or nothing; and once the code was
played, it is heard. -/
theorem remote_heard (boot : ℕ) (es : List RemoteEvent) :
    let s := es.foldl (Remote.step boot) Remote.init
    Heard s.codes (receive s.ir.line).heard ∧
      (s.ir.isSending = .again ∨ s.ir.irqSta = true →
        HeardLast s.codes (receive s.ir.line).heard) := by
  intro s
  have h : Phase boot s := Phase.run boot es
  refine ⟨h.heard_codes, fun hover => ?_⟩
  cases h with
  | silent todo sending dma sta low heard => simp [sending, sta] at hover
  | preparing pressed todo start dma sta fresh sent rests codes heard =>
    simp [fresh, sta] at hover
  | playing pressed todo sending enabled sta dma line conveys long heard last again =>
    have hagain : s.ir.isSending = .again := hover.resolve_right (by rw [sta]; decide)
    obtain ⟨part, hpart, hline⟩ := Phase.exists_part line long
    obtain ⟨o, ho, hheard⟩ := conveys.part part hpart
    rw [hline, receive_append, hheard]
    exact again hagain o ho
  | played pressed todo sending enabled dma sta rests last => exact last

/-! ### The buffer -/

/-- `PWM_IR_MAX_NUM`. -/
def pwmIrMaxNum : ℕ := 80

/-- How many words are in the buffer at most while some statements of `ir_nec_send` are run. -/
def mostWords : ℕ → List SendStep → ℕ
  | n, [] => n
  | n, .dataNum :: steps => max n (mostWords 0 steps)
  | n, .put _ :: steps => mostWords (n + 1) steps
  | n, _ :: steps => mostWords n steps

theorem mostWords_exec (boot : ℕ) (s : RcIr) (x : SendStep) (steps : List SendStep) :
    mostWords (s.exec boot x).data.length steps ≤ mostWords s.data.length (x :: steps) := by
  cases x with
  | dataNum => exact Nat.le_max_right _ _
  | put w =>
    rw [RcIr.exec, List.length_append]
    exact le_rfl
  | _ => exact le_rfl

theorem mostWords_put (words : List UInt16) (n : ℕ) (steps : List SendStep) :
    mostWords n (words.map .put ++ steps) = mostWords (n + words.length) steps := by
  induction words generalizing n with
  | nil => rfl
  | cons w words ih =>
    rw [List.map_cons, List.cons_append, mostWords, ih, List.length_cons, Nat.add_assoc,
      Nat.add_comm 1]

theorem length_necWords (addr1 addr2 cmd : UInt8) : (necWords addr1 addr2 cmd).length = 68 := by
  have hbits : ((necBits addr1 addr2 cmd).flatMap bitPulses).length = 64 := by
    rw [List.length_flatMap,
      List.map_congr_left (fun b _ => show (bitPulses b).length = 2 from rfl),
      List.map_const', List.sum_replicate, length_necBits]
    rfl
  rw [← List.length_map wordPulse, map_wordPulse_necWords, framePulses]
  simp [hbits]

theorem mostWords_necSteps (n : ℕ) (addr1 addr2 cmd : UInt8) :
    mostWords n (necSteps addr1 addr2 cmd ++ [.start]) = max n 68 := by
  rw [necSteps, List.cons_append, List.cons_append, mostWords, List.append_assoc, mostWords_put,
    length_necWords]
  rfl

namespace RcIr

theorem pwm_data (s : RcIr) : s.pwm.data = s.data := by
  by_cases hdma : s.dma = none
  · rw [pwm_of_none hdma]
    rfl
  · obtain ⟨d, line, hpwm, -, -⟩ | ⟨hpwm, -⟩ := pwm_cases hdma
    · rw [hpwm]
    · rw [hpwm]

theorem irSendRelease_data (s : RcIr) : s.irSendRelease.data = s.data := by
  by_cases h : s.isSending = .none
  · rw [irSendRelease_of_none h]
  · rw [irSendRelease_of_sending h]

theorem irIsSending_data (boot : ℕ) (s : RcIr) : (s.irIsSending boot).data = s.data := by
  rw [irIsSending]
  split <;> rfl

/-- An interrupt leaves the buffer as it is, or fills it with repeats. -/
theorem rcIrIrqPrc_data (boot : ℕ) (s : RcIr) :
    (s.rcIrIrqPrc boot).data = s.data ∨ (s.rcIrIrqPrc boot).data.length ≤ 21 := by
  rw [rcIrIrqPrc]
  split
  case isFalse => exact Or.inl rfl
  dsimp only
  split
  case isFalse => exact Or.inl (irSendRelease_data _)
  split
  · exact Or.inr (show (21 : ℕ) ≤ 21 from le_rfl)
  · exact Or.inr (show (20 : ℕ) ≤ 21 by decide)
  · exact Or.inl rfl

end RcIr

namespace Remote

variable {boot : ℕ} {s : Remote}

theorem irInit_data (s : Remote) : s.irInit.ir.data = s.ir.data ∧ s.irInit.todo = s.todo := by
  rw [irInit]
  split <;> exact ⟨rfl, rfl⟩

/-- `ir_nec_send` leaves the buffer as it is, until the main thread goes on. -/
theorem irNecSend_data (boot : ℕ) (s : Remote) (addr1 addr2 cmd : UInt8) :
    (s.irNecSend boot addr1 addr2 cmd).ir.data = s.ir.data ∧
      ((s.irNecSend boot addr1 addr2 cmd).todo = s.todo ∨
        (s.irNecSend boot addr1 addr2 cmd).todo = necSteps addr1 addr2 cmd ++ [.start]) := by
  rw [irNecSend]
  split
  · dsimp only
    split
    · exact ⟨s.ir.irIsSending_data boot, Or.inl rfl⟩
    · exact ⟨s.ir.irIsSending_data boot, Or.inr rfl⟩
  · exact ⟨rfl, Or.inl rfl⟩

/-- So does a scan of the keys. -/
theorem procKeyboard_data (boot : ℕ) (s : Remote) (detKey : Option RemoteKeys) :
    (s.procKeyboard boot detKey).ir.data = s.ir.data ∧
      ((s.procKeyboard boot detKey).todo = s.todo ∨
        ∃ addr1 addr2 cmd, (s.procKeyboard boot detKey).todo =
          necSteps addr1 addr2 cmd ++ [.start]) := by
  rw [procKeyboard]
  split
  case isFalse => exact ⟨rfl, Or.inl rfl⟩
  cases detKey with
  | none => exact ⟨rfl, Or.inl rfl⟩
  | some keys =>
    obtain hsame | ⟨-, t, cmd, hsame, hsend⟩ | ⟨-, hir, htodo, -, -⟩ :=
      keyChangeProc_cases boot { s with keyScanTick := s.ir.now boot } keys
    · exact ⟨congrArg RcIr.data hsame.ir, Or.inl hsame.todo⟩
    · obtain ⟨hdata, htodo⟩ := t.irInit_data
      obtain ⟨hsent, hsteps⟩ := t.irInit.irNecSend_data boot 0x88 (~~~0x88) cmd
      dsimp only
      rw [hsend]
      refine ⟨hsent.trans (hdata.trans (congrArg RcIr.data hsame.ir)), ?_⟩
      cases hsteps with
      | inl hkept => exact Or.inl (hkept.trans (htodo.trans hsame.todo))
      | inr hnew => exact Or.inr ⟨_, _, _, hnew⟩
    · refine ⟨?_, Or.inl htodo⟩
      dsimp only
      rw [hir]
      exact s.ir.irSendRelease_data

end Remote

/-- There is room in the buffer, for all that the main thread is going to put into it. -/
def Fits (s : Remote) : Prop := mostWords s.ir.data.length s.todo ≤ pwmIrMaxNum

theorem Fits.step {boot : ℕ} {s : Remote} (hfits : Fits s) (h : Phase boot s) (e : RemoteEvent) :
    Fits (s.step boot e) := by
  rw [Fits] at hfits
  cases e with
  | pwm =>
    rw [Fits, Remote.step]
    dsimp only
    rw [RcIr.pwm_data]
    exact hfits
  | irq =>
    rw [Fits, Remote.step]
    by_cases htodo : s.todo = []
    · dsimp only
      rw [htodo] at hfits ⊢
      cases s.ir.rcIrIrqPrc_data boot with
      | inl hsame =>
        rw [hsame]
        exact hfits
      | inr hrepeats => exact hrepeats.trans (by decide)
    · have hsame : s.ir.rcIrIrqPrc boot = s.ir := if_neg (by rw [h.sta_of_todo htodo]; decide)
      rw [hsame]
      exact hfits
  | loop =>
    rw [Remote.step]
    split
    case h_1 => exact hfits
    case h_2 x todo htodo =>
      rw [htodo] at hfits
      exact (mostWords_exec boot s.ir x todo).trans hfits
  | scan detKey =>
    rw [Remote.step]
    split
    case isFalse => exact hfits
    case isTrue htodo =>
      rw [htodo] at hfits
      obtain ⟨hdata, hkept | ⟨addr1, addr2, cmd, hnew⟩⟩ := s.procKeyboard_data boot detKey
      · rw [Fits, hdata, hkept, htodo]
        exact hfits
      · rw [Fits, hdata, hnew, mostWords_necSteps]
        exact Nat.max_le.mpr ⟨hfits, by decide⟩
  | sleep n =>
    rw [Remote.step]
    split
    case isFalse => exact hfits
    case isTrue hsleep =>
      rw [Fits, Remote.deepRetn]
      dsimp only
      rw [hsleep.1]
      exact Nat.zero_le _

theorem Fits.run (boot : ℕ) (es : List RemoteEvent) :
    Fits (es.foldl (Remote.step boot) Remote.init) := by
  induction es using List.reverseRecOn with
  | nil => exact Nat.zero_le _
  | append_singleton es e ih =>
    rw [List.foldl_concat]
    exact ih.step (Phase.run boot es) e

theorem length_le_mostWords (n : ℕ) (steps : List SendStep) : n ≤ mostWords n steps := by
  induction steps generalizing n with
  | nil => exact le_rfl
  | cons x steps ih =>
    cases x with
    | dataNum => exact Nat.le_max_left _ _
    | put w => exact (Nat.le_succ n).trans (ih (n + 1))
    | _ => exact ih n

/-- **The buffer and the hardware**, in every run: the buffer is long enough; while the hardware
plays it, no step of the main thread or of an interrupt writes to it; and the device may sleep only
when nothing is played, and nothing will be. -/
theorem remote_buffer (boot : ℕ) (es : List RemoteEvent) :
    let s := es.foldl (Remote.step boot) Remote.init
    s.ir.data.length ≤ pwmIrMaxNum ∧
      (∀ e, s.ir.dma ≠ none → (s.step boot e).ir.data = s.ir.data) ∧
      (s.MaySleep → s.ir.dma = none ∧ s.ir.irqSta = false) := by
  intro s
  have h : Phase boot s := Phase.run boot es
  refine ⟨(length_le_mostWords _ _).trans (Fits.run boot es), fun e hdma => ?_, fun hsleep => ?_⟩
  · obtain ⟨htodo, hsta, hsending⟩ := h.of_dma hdma
    cases e with
    | pwm => exact s.ir.pwm_data
    | irq =>
      have hsame : s.ir.rcIrIrqPrc boot = s.ir := if_neg (by rw [hsta]; decide)
      exact congrArg RcIr.data hsame
    | loop =>
      rw [Remote.step, htodo]
    | scan detKey =>
      rw [Remote.step, if_pos htodo]
      exact (s.procKeyboard_data boot detKey).1
    | sleep n =>
      rw [Remote.step, if_neg fun hsleep => hsending hsleep.2.2]
  · cases h with
    | silent todo sending dma sta => exact ⟨dma, sta⟩
    | preparing pressed todo => simp [hsleep.1] at todo
    | playing pressed todo sending => exact absurd hsleep.2.2 sending
    | played pressed todo sending => exact absurd hsleep.2.2 sending

end TcBle.Vendor
