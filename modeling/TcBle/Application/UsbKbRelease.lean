import TcBle.Application.UsbKb
import TcBle.Foundation.Run

/-!
# No stuck key on the USB keyboard

What the host has got, and then what the FIFO holds for it, is the `stream` of keyboard reports: the
last of it is what the host will see in the end. A key is stuck where the last report passed to the
keyboard has no key in it, and the stream does not end with a release.

## What is proved

* `step_good` — while a release is owed, as long as the stream does not end with one, a clean event
  leaves no key stuck.
* `no_stuck_key` — throughout a run whose events are clean, when the last report has no key in it
  and the FIFO is empty, the last report the host has got is the release.
-/

namespace TcBle.Application.UsbKb

open Foundation Foundation.Run

/-! ### The FIFO -/

theorem and_three (w : UInt8) : (w &&& 3).toNat = w.toNat % usbFifoNum := by
  have := Nat.and_two_pow_sub_one_eq_mod w.toNat 2
  simpa [usbFifoNum] using this

theorem and_seven (w : UInt8) : (w &&& 7).toNat = w.toNat % 8 := by
  have := Nat.and_two_pow_sub_one_eq_mod w.toNat 3
  simpa using this

variable {s : UsbKb}

/-- What the FIFO holds when there is room for one more report. -/
def kept (s : UsbKb) : List UsbReport := if s.ring.count < usbFifoNum then s.fifo else s.fifo.tail

/-- Putting a report into the FIFO. -/
theorem usbFifoPush_spec (hcount : s.ring.count ≤ usbFifoNum) (x : UsbReport) :
    ∃ usbFifo rptr wptr, s.usbFifoPush x =
        { s with usbFifo := usbFifo, usbFfRptr := rptr, usbFfWptr := wptr } ∧
      (s.usbFifoPush x).fifo = s.kept ++ [x] ∧ (s.usbFifoPush x).ring.count ≤ usbFifoNum := by
  have hw := s.usbFfWptr.toNat_lt
  have hr := s.usbFfRptr.toNat_lt
  have hpush : ({ s with
      usbFifo := Function.update s.usbFifo (s.usbFfWptr &&& 3).toNat x
      usbFfWptr := s.usbFfWptr + 1 } : UsbKb).ring = s.ring.push x := by
    simp only [ring, RingBuffer.push, and_three, UInt8.toNat_add, UInt8.toNat_one]
  have huse : ((s.usbFfWptr + 1 - s.usbFfRptr) &&& 7).toNat = s.ring.count + 1 := by
    simp only [ring, RingBuffer.count, usbFifoNum] at hcount ⊢
    simp only [and_seven, UInt8.toNat_sub, UInt8.toNat_add, UInt8.toNat_one]
    omega
  by_cases hroom : s.ring.count < usbFifoNum
  · have heq : s.usbFifoPush x = { s with
        usbFifo := Function.update s.usbFifo (s.usbFfWptr &&& 3).toNat x
        usbFfWptr := s.usbFfWptr + 1 } := by
      simp only [usbFifoPush, huse, gt_iff_lt]
      exact if_neg (by omega)
    refine ⟨_, _, _, heq, ?_, ?_⟩
    · rw [heq, fifo, hpush, kept, if_pos hroom]
      exact RingBuffer.waiting_push hw hr hroom x
    · rw [heq, hpush, RingBuffer.count_push _ _ hroom]
      exact hroom
  · have hfull : s.ring.count = usbFifoNum := by omega
    have heq : s.usbFifoPush x = { s with
        usbFifo := Function.update s.usbFifo (s.usbFfWptr &&& 3).toNat x
        usbFfRptr := s.usbFfRptr + 1
        usbFfWptr := s.usbFfWptr + 1 } := by
      simp only [usbFifoPush, huse, gt_iff_lt]
      exact if_pos (by omega)
    have hring : (s.usbFifoPush x).ring = (s.ring.push x).release 1 := by
      rw [heq, ← hpush]
      simp only [ring, RingBuffer.release, UInt8.toNat_add, UInt8.toNat_one]
    refine ⟨_, _, _, heq, ?_, ?_⟩
    · rw [fifo, hring, kept, if_neg hroom]
      exact RingBuffer.waiting_push_full hw hr hfull x
    · rw [hring]
      simp only [ring, RingBuffer.count, RingBuffer.push, RingBuffer.release, usbFifoNum] at hfull ⊢
      omega

/-- The oldest report in the FIFO. -/
theorem fifo_eq_cons (h : s.usbFfRptr ≠ s.usbFfWptr) :
    s.fifo = s.usbFifo (s.usbFfRptr &&& 3).toNat ::
        ({ s with usbFfRptr := s.usbFfRptr + 1 } : UsbKb).fifo ∧
      ({ s with usbFfRptr := s.usbFfRptr + 1 } : UsbKb).ring.count + 1 = s.ring.count := by
  have hw := s.usbFfWptr.toNat_lt
  have hr := s.usbFfRptr.toNat_lt
  have hne : s.ring.wptr ≠ s.ring.rptr := fun heq => h (UInt8.toNat_inj.mp heq.symm)
  have hring : ({ s with usbFfRptr := s.usbFfRptr + 1 } : UsbKb).ring = s.ring.release 1 := by
    simp only [ring, RingBuffer.release, UInt8.toNat_add, UInt8.toNat_one]
  refine ⟨?_, ?_⟩
  · rw [fifo, fifo, hring, RingBuffer.waiting_read hw hr hne, RingBuffer.get]
    simp only [ring, and_three]
  · rw [hring]
    simp only [ring, RingBuffer.count, RingBuffer.release] at hne ⊢
    omega

/-- An empty FIFO. -/
theorem fifo_eq_nil (h : s.usbFfRptr = s.usbFfWptr) : s.fifo = [] := by
  have : s.ring.count = 0 := by
    simp only [ring, RingBuffer.count, h]
    have := s.usbFfWptr.toNat_lt
    omega
  exact List.eq_nil_of_length_eq_zero (by rw [fifo, RingBuffer.length_waiting, this])

/-! ### What the host will see -/

/-- Some reports end with a release, or there are none. -/
def Settled (l : List KbReport) : Prop := ∀ r ∈ l.getLast?, r = .zero

instance : DecidablePred Settled := fun l =>
  match h : l.getLast? with
  | none => .isTrue (by simp [Settled, h])
  | some r => decidable_of_iff (r = .zero) (by simp [Settled, h])

theorem settled_nil : Settled [] := by simp [Settled]

theorem settled_concat (l : List KbReport) (r : KbReport) : Settled (l ++ [r]) ↔ r = .zero := by
  simp [Settled]

/-- The end of two lists is that of the second, unless it is empty. -/
theorem settled_append {l l' : List KbReport} (h : l' ≠ []) : Settled (l ++ l') ↔ Settled l' := by
  simp [Settled, List.getLast?_append, List.getLast?_eq_some_getLast h]

@[simp] theorem kbReports_nil : kbReports [] = [] := rfl

@[simp] theorem kbReports_kb (r : KbReport) (l : List UsbReport) :
    kbReports (.kb r :: l) = r :: kbReports l := rfl

@[simp] theorem kbReports_mouse (r : MouseReport) (l : List UsbReport) :
    kbReports (.mouse r :: l) = kbReports l := rfl

theorem kbReports_append (l l' : List UsbReport) :
    kbReports (l ++ l') = kbReports l ++ kbReports l' :=
  List.filterMap_append

/-- What the host has got, and what the FIFO holds for it. -/
def stream (s : UsbKb) : List KbReport := s.host ++ kbReports s.fifo

/-- A release is owed as long as the stream does not end with one. -/
structure Owed (s : UsbKb) : Prop where
  /-- The FIFO holds no more than it has slots. -/
  count : s.ring.count ≤ usbFifoNum
  /-- The bit for normal keys. -/
  normal : s.usbkbNotReleased.normal = false → Settled s.stream

/-- No key is stuck. -/
structure Good (s : UsbKb) : Prop extends Owed s where
  /-- The last report had no key in it. -/
  released : s.released = true → Settled s.stream

/-- Putting one more report into the FIFO takes a release away that nothing is behind, while the
host has a key pressed. -/
def LosesRelease (s : UsbKb) : Prop :=
  s.ring.count = usbFifoNum ∧ s.fifo.head? = some (.kb .zero) ∧ kbReports s.fifo.tail = [] ∧
    ¬Settled s.host

/-- A report of the keyboard endpoint that is a press: if it goes into the FIFO, a release is owed
already. -/
def CleanPress (read : Bool) (r : KbReport) (s : UsbKb) : Prop :=
  (s.keyboardBusy && !read) = true → s.usbkbNotReleased.normal = true ∨ r = .zero

/-- A release that is owed: if it goes to the host, it does not overtake a press. -/
def CleanRelease (read : Bool) (s : UsbKb) : Prop :=
  s.usbkbNotReleased.normal = true → (s.keyboardBusy && !read) = false → Settled (kbReports s.fifo)

/-- A report of the mouse endpoint: if it goes into the FIFO, no release is lost that is not sent
again. -/
def CleanMouse (read : Bool) (s : UsbKb) : Prop :=
  (s.mouseBusy && !read) = true → (s.released = true ∨ s.usbkbNotReleased.normal = false) →
    ¬LosesRelease s

instance (s : UsbKb) : Decidable (LosesRelease s) := inferInstanceAs (Decidable (_ ∧ _))

instance (read : Bool) (r : KbReport) (s : UsbKb) : Decidable (CleanPress read r s) :=
  inferInstanceAs (Decidable (_ → _))

instance (read : Bool) (s : UsbKb) : Decidable (CleanRelease read s) :=
  inferInstanceAs (Decidable (_ → _))

instance (read : Bool) (s : UsbKb) : Decidable (CleanMouse read s) :=
  inferInstanceAs (Decidable (_ → _))

/-- What is left of a stream that was settled, is settled if no release was lost. -/
theorem settled_kept (hcount : s.ring.count ≤ usbFifoNum) (h : Settled s.stream)
    (hlose : ¬LosesRelease s) : Settled (s.host ++ kbReports s.kept) := by
  unfold kept
  by_cases hroom : s.ring.count < usbFifoNum
  · rw [if_pos hroom]
    exact h
  have hfull : s.ring.count = usbFifoNum := by omega
  rw [if_neg hroom]
  unfold stream at h
  cases hfifo : s.fifo with
  | nil => simpa [hfifo] using h
  | cons x rest =>
    rw [hfifo] at h
    rw [List.tail_cons]
    cases x with
    | mouse r => exact h
    | kb r =>
      rw [kbReports_kb, ← List.singleton_append] at h
      by_cases hrest : kbReports rest = []
      · rw [hrest, List.append_nil, settled_concat] at h
        by_contra hhost
        rw [hrest, List.append_nil] at hhost
        exact hlose ⟨hfull, by rw [hfifo, h]; rfl, by rw [hfifo]; exact hrest, hhost⟩
      · rw [← List.append_assoc, settled_append hrest] at h
        rwa [settled_append hrest]

/-! ### The endpoints -/

/-- A report of the mouse endpoint. -/
theorem usbmouseHidReport_spec (hcount : s.ring.count ≤ usbFifoNum) {read : Bool}
    (hclean : CleanMouse read s) (r : MouseReport) :
    (s.usbmouseHidReport read r).1.usbkbNotReleased = s.usbkbNotReleased ∧
      (s.usbmouseHidReport read r).1.released = s.released ∧
      (s.usbmouseHidReport read r).1.ring.count ≤ usbFifoNum ∧
      (s.released = true ∨ s.usbkbNotReleased.normal = false → Settled s.stream →
        Settled (s.usbmouseHidReport read r).1.stream) := by
  unfold usbmouseHidReport
  cases hbusy : s.mouseBusy && !read with
  | false =>
    rw [if_neg Bool.false_ne_true]
    exact ⟨rfl, rfl, hcount, fun _ h => h⟩
  | true =>
    rw [if_pos rfl]
    obtain ⟨_, _, _, heq, hfifo, hcount'⟩ := usbFifoPush_spec hcount (.mouse r)
    refine ⟨by rw [heq], by rw [heq], hcount', fun hor h => ?_⟩
    have hhost : (s.usbFifoPush (.mouse r)).host = s.host := by rw [heq]
    have hkept := settled_kept hcount h (hclean hbusy hor)
    rwa [stream, hhost, hfifo, kbReports_append, kbReports_mouse, kbReports_nil, List.append_nil]

/-- A report of the keyboard endpoint. -/
theorem usbkbHidReportNormal_spec (hcount : s.ring.count ≤ usbFifoNum) (read : Bool)
    (r : KbReport) :
    (s.usbkbHidReportNormal read r).2 = !(s.keyboardBusy && !read) ∧
      (s.usbkbHidReportNormal read r).1.ring.count ≤ usbFifoNum ∧
      (s.usbkbHidReportNormal read r).1.usbkbNotReleased = s.usbkbNotReleased ∧
      (s.usbkbHidReportNormal read r).1.released = s.released ∧
      (s.usbkbHidReportNormal read r).1.stream =
        if (s.keyboardBusy && !read) = true then s.host ++ kbReports s.kept ++ [r]
        else s.host ++ [r] ++ kbReports s.fifo := by
  unfold usbkbHidReportNormal
  cases hbusy : s.keyboardBusy && !read with
  | false =>
    simp only [Bool.false_eq_true, if_false]
    exact ⟨rfl, hcount, trivial, trivial, rfl⟩
  | true =>
    simp only [if_true]
    obtain ⟨_, _, _, heq, hfifo, hcount'⟩ := usbFifoPush_spec hcount (.kb r)
    refine ⟨rfl, hcount', by rw [heq], by rw [heq], ?_⟩
    have hhost : (s.usbFifoPush (.kb r)).host = s.host := by rw [heq]
    rw [stream, hhost, hfifo, kbReports_append, List.append_assoc]
    rfl

/-! ### Keys -/

/-- A normal key is reported. -/
theorem Owed.press (h : Owed s) {read : Bool} {r : KbReport} (hclean : CleanPress read r s) :
    Owed (if (s.usbkbHidReportNormal read r).2 then
        { (s.usbkbHidReportNormal read r).1 with
          usbkbNotReleased :=
            { (s.usbkbHidReportNormal read r).1.usbkbNotReleased with normal := true } }
      else (s.usbkbHidReportNormal read r).1) := by
  obtain ⟨hsent, hcount, hmask, -, hstream⟩ := usbkbHidReportNormal_spec h.count read r
  rw [hsent]
  cases hbusy : s.keyboardBusy && !read with
  | false => exact ⟨hcount, nofun⟩
  | true =>
    rw [hbusy] at hstream
    refine ⟨hcount, fun hnormal => ?_⟩
    have hnormal' : s.usbkbNotReleased.normal = false := hmask ▸ hnormal
    cases hclean hbusy with
    | inl hset =>
      rw [hnormal'] at hset
      exact absurd hset Bool.false_ne_true
    | inr hzero =>
      have := (settled_concat (s.host ++ kbReports s.kept) r).mpr hzero
      exact hstream ▸ this

/-- The normal keys are released. -/
theorem Owed.releaseNormalKey (h : Owed s) {read : Bool} (hclean : CleanRelease read s) :
    Good (s.usbkbReleaseNormalKey read) := by
  unfold usbkbReleaseNormalKey
  cases hnormal : s.usbkbNotReleased.normal with
  | false => exact ⟨h, fun _ => h.normal hnormal⟩
  | true =>
    obtain ⟨hsent, hcount, -, -, hstream⟩ := usbkbHidReportNormal_spec h.count read .zero
    simp only [if_true, hsent]
    cases hbusy : s.keyboardBusy && !read with
    | false =>
      have hsettled : Settled (s.usbkbHidReportNormal read .zero).1.stream := by
        rw [hstream, hbusy, if_neg Bool.false_ne_true]
        by_cases hnil : kbReports s.fifo = []
        · rw [hnil, List.append_nil, settled_concat]
        · rw [settled_append hnil]
          exact hclean hnormal hbusy
      exact ⟨⟨hcount, fun _ => hsettled⟩, fun _ => hsettled⟩
    | true =>
      have hsettled : Settled (s.usbkbHidReportNormal read .zero).1.stream := by
        rw [hstream, hbusy, if_pos rfl, settled_concat]
      exact ⟨⟨hcount, fun _ => hsettled⟩, fun _ => hsettled⟩

/-- Nothing that matters changes. -/
theorem Good.congr (h : Good s) {s' : UsbKb} (hcount : s'.ring.count ≤ usbFifoNum)
    (hnormal : s'.usbkbNotReleased.normal = s.usbkbNotReleased.normal)
    (hreleased : s'.released = s.released) (hstream : s'.stream = s.stream) : Good s' := by
  refine ⟨⟨hcount, fun hn => ?_⟩, fun hrel => ?_⟩
  · rw [hstream]
    exact h.normal (hnormal ▸ hn)
  · rw [hstream]
    exact h.released (hreleased ▸ hrel)

/-- The bits of the mouse endpoint change. -/
theorem Good.setMask (h : Good s) {m : NotReleased} (hm : m.normal = s.usbkbNotReleased.normal) :
    Good { s with usbkbNotReleased := m } :=
  h.congr h.count hm rfl rfl

/-- A report of the mouse endpoint. -/
theorem Good.mouseReport (h : Good s) {read : Bool} (hclean : CleanMouse read s) (r : MouseReport) :
    Good (s.usbmouseHidReport read r).1 := by
  obtain ⟨hmask, hreleased, hcount, hstream⟩ := usbmouseHidReport_spec h.count hclean r
  refine ⟨⟨hcount, fun hn => ?_⟩, fun hrel => ?_⟩
  · rw [hmask] at hn
    exact hstream (.inr hn) (h.normal hn)
  · rw [hreleased] at hrel
    exact hstream (.inl hrel) (h.released hrel)

/-- A report of the mouse endpoint, after which a bit of that endpoint changes if it was sent. -/
theorem Good.mouseReport_mask (h : Good s) {read : Bool} (hclean : CleanMouse read s)
    (r : MouseReport) (m : NotReleased → NotReleased) (hm : ∀ n, (m n).normal = n.normal) :
    Good (match s.usbmouseHidReport read r with
      | (s, sent) => if sent then { s with usbkbNotReleased := m s.usbkbNotReleased } else s) := by
  have hgood := h.mouseReport hclean r
  dsimp only
  split
  · exact hgood.setMask (hm _)
  · exact hgood

/-! ### Events -/

/-- The normal keys of a report. -/
def CleanNormal (read : Bool) (ctrlKey : UInt8) (keys : List UInt8) (s : UsbKb) : Prop :=
  if keys ≠ [] || ctrlKey ≠ 0 then CleanPress read ⟨ctrlKey, normalKeycode keys⟩ s
  else CleanRelease read s

/-- The system key of a report is reported, or one is released. -/
def CleanSys (read : Bool) (extKey : UInt8) (s : UsbKb) : Prop :=
  (extKey ≥ vkExtStart && extKey < vkSysEnd) || s.usbkbNotReleased.sys → CleanMouse read s

/-- The media key of a report is reported, or one is released. -/
def CleanMedia (read : Bool) (extKey : UInt8) (s : UsbKb) : Prop :=
  (extKey ≥ vkSysEnd && extKey < vkExtEnd) || s.usbkbNotReleased.media → CleanMouse read s

instance (read : Bool) (ctrlKey : UInt8) (keys : List UInt8) (s : UsbKb) :
    Decidable (CleanNormal read ctrlKey keys s) :=
  if h : keys ≠ [] || ctrlKey ≠ 0 then
    decidable_of_iff (CleanPress read ⟨ctrlKey, normalKeycode keys⟩ s)
      (by rw [CleanNormal, if_pos h])
  else decidable_of_iff (CleanRelease read s) (by rw [CleanNormal, if_neg h])

instance (read : Bool) (extKey : UInt8) (s : UsbKb) : Decidable (CleanSys read extKey s) :=
  inferInstanceAs (Decidable (_ → _))

instance (read : Bool) (extKey : UInt8) (s : UsbKb) : Decidable (CleanMedia read extKey s) :=
  inferInstanceAs (Decidable (_ → _))

theorem Good.releaseSysKey (h : Good s) {read : Bool}
    (hclean : s.usbkbNotReleased.sys = true → CleanMouse read s) :
    Good (s.usbkbReleaseSysKey read) := by
  unfold usbkbReleaseSysKey
  split
  · rename_i hsys
    exact h.mouseReport_mask (hclean hsys) _ (fun n => { n with sys := false }) fun _ => rfl
  · exact h

theorem Good.releaseMediaKey (h : Good s) {read : Bool}
    (hclean : s.usbkbNotReleased.media = true → CleanMouse read s) :
    Good (s.usbkbReleaseMediaKey read) := by
  unfold usbkbReleaseMediaKey
  split
  · rename_i hmedia
    exact h.mouseReport_mask (hclean hmedia) _ (fun n => { n with media := false }) fun _ => rfl
  · exact h

theorem Good.reportSysKey (h : Good s) {read : Bool} {extKey : UInt8}
    (hclean : CleanSys read extKey s) : Good (s.usbkbReportSysKey read extKey) := by
  unfold usbkbReportSysKey
  split
  · rename_i hext
    exact h.mouseReport_mask (hclean (Bool.or_eq_true_iff.mpr (.inl hext))) _
      (fun n => { n with sys := true })
      fun _ => rfl
  · exact h.releaseSysKey fun hsys => hclean (Bool.or_eq_true_iff.mpr (.inr hsys))

theorem Good.reportMediaKey (h : Good s) {read : Bool} {extKey : UInt8}
    (hclean : CleanMedia read extKey s) : Good (s.usbkbReportMediaKey read extKey) := by
  unfold usbkbReportMediaKey
  split
  · rename_i hext
    exact h.mouseReport_mask (hclean (Bool.or_eq_true_iff.mpr (.inl hext))) _
      (fun n => { n with media := true })
      fun _ => rfl
  · exact h.releaseMediaKey fun hmedia => hclean (Bool.or_eq_true_iff.mpr (.inr hmedia))

theorem Owed.reportNormalKey (h : Owed s) {read : Bool} {ctrlKey : UInt8} {keys : List UInt8}
    (hclean : CleanNormal read ctrlKey keys s)
    (hreleased : s.released = true → keys = [] ∧ ctrlKey = 0) :
    Good (s.usbkbReportNormalKey read ctrlKey keys) := by
  unfold usbkbReportNormalKey
  unfold CleanNormal at hclean
  split
  · rename_i hpress
    rw [if_pos hpress] at hclean
    refine ⟨h.press hclean, fun hrel => ?_⟩
    have hsame :=
      (usbkbHidReportNormal_spec h.count read ⟨ctrlKey, normalKeycode keys⟩).2.2.2.1
    have hrel' : s.released = true := by
      rw [← hsame]
      dsimp only at hrel
      split at hrel <;> exact hrel
    obtain ⟨hnil, hzero⟩ := hreleased hrel'
    simp [hnil, hzero] at hpress
  · rename_i hpress
    rw [if_neg hpress] at hclean
    exact h.releaseNormalKey hclean

/-- The last report is noted. -/
def noted (data : KbData) (s : UsbKb) : UsbKb :=
  let s := { s with released := !data.pressed }
  if data.pressed && !kbIsDataSame s.lastData data then { s with lastData := data } else s

/-- A report is passed over, because it says again what is pressed. -/
def repeated (data : KbData) (s : UsbKb) : Bool :=
  data.pressed && kbIsDataSame s.lastData data && s.usbkbNotReleased.any

/-- An event is clean: so are the reports that it makes, one after the other. -/
def Clean (s : UsbKb) : Event → Prop
  | .report reads _ data =>
    data.cnt.toNat ≤ keyboardReportKeyMax → s.repeated data = false →
      let s₁ := (s.noted data).usbkbReportNormalKey reads.keyboard data.ctrlKey data.keys.1
      let s₂ := s₁.usbkbReportSysKey reads.sys data.keys.2
      CleanNormal reads.keyboard data.ctrlKey data.keys.1 (s.noted data) ∧
        CleanSys reads.sys data.keys.2 s₁ ∧ CleanMedia reads.mouse data.keys.2 s₂
  | .consumerKey reads _ key =>
    key ≠ 0 ∨ s.usbkbNotReleased.media = true → CleanMouse reads.mouse s
  | .mouse reads _ => CleanMouse reads.mouse s
  | .releaseCheck reads now =>
    s.usbkbNotReleased.any = true →
      now - s.usbkbDataReportTime > usbKeyboardReleaseTimeout * 16 →
        let s₁ := s.usbkbReleaseSysKey reads.sys
        let s₂ := s₁.usbkbReleaseNormalKey reads.keyboard
        (s.usbkbNotReleased.sys = true → CleanMouse reads.sys s) ∧ CleanRelease reads.keyboard s₁ ∧
          (s₂.usbkbNotReleased.media = true → CleanMouse reads.mouse s₂)
  | .fifoProc _ => True

instance (s : UsbKb) : ∀ e, Decidable (Clean s e)
  | .report .. => inferInstanceAs (Decidable (_ → _ → _ ∧ _))
  | .consumerKey .. => inferInstanceAs (Decidable (_ → _))
  | .mouse reads _ => inferInstanceAs (Decidable (CleanMouse reads.mouse s))
  | .releaseCheck .. => inferInstanceAs (Decidable (_ → _ → _ ∧ _))
  | .fifoProc _ => inferInstanceAs (Decidable True)

/-- A report without a key. -/
theorem keys_of_not_pressed {data : KbData} (h : data.pressed = false) :
    data.keys.1 = [] ∧ data.ctrlKey = 0 := by
  simp only [KbData.pressed, Bool.or_eq_false_iff, decide_eq_false_iff_not, not_not] at h
  exact ⟨by rw [KbData.keys, if_neg h.1], h.2⟩

/-- A report is passed to the keyboard. -/
theorem report_good (h : Good s) {reads : Reads} {now : UInt32} {data : KbData}
    (hclean : Clean s (.report reads now data)) : Good (s.usbkbHidReport reads now data) := by
  unfold usbkbHidReport
  by_cases hcnt : data.cnt.toNat > keyboardReportKeyMax
  · rw [if_pos hcnt]
    exact h
  rw [if_neg hcnt]
  cases hrep : s.repeated data with
  | true =>
    have hpressed : data.pressed = true := by
      simp only [repeated, Bool.and_eq_true] at hrep
      exact hrep.1.1
    simp only [repeated] at hrep
    simp only [hrep, if_true]
    exact ⟨⟨h.count, h.normal⟩, fun hrel => by simp [hpressed] at hrel⟩
  | false =>
    obtain ⟨hnormal, hsys, hmedia⟩ := hclean (Nat.le_of_not_lt hcnt) hrep
    simp only [repeated] at hrep
    simp only [hrep, Bool.false_eq_true, if_false]
    have hnoted : Owed (s.noted data) ∧ (s.noted data).released = !data.pressed := by
      unfold noted
      dsimp only
      split
      · exact ⟨⟨h.count, h.normal⟩, rfl⟩
      · exact ⟨⟨h.count, h.normal⟩, rfl⟩
    have h₁ := hnoted.1.reportNormalKey hnormal fun hrel =>
      keys_of_not_pressed (by rwa [hnoted.2, Bool.not_eq_true'] at hrel)
    have h₂ := (h₁.reportSysKey hsys).reportMediaKey hmedia
    exact h₂.congr h₂.count rfl rfl rfl

/-- The FIFO is looked at. -/
theorem fifoProc_good (h : Good s) (reads : Reads) : Good (s.usbHidReportFifoProc reads) := by
  unfold usbHidReportFifoProc
  split
  · exact h
  rename_i hne
  obtain ⟨hfifo, hcount⟩ := fifo_eq_cons hne
  have hcount' := Nat.le_of_succ_le (hcount.trans_le h.count)
  split
  · rename_i r hslot
    split
    · exact h
    rename_i hbusy
    rw [hslot] at hfifo
    simp only [usbkbHidReportNormal, if_neg hbusy]
    have hstream : stream { s with
        keyboardBusy := true, host := s.host ++ [r], usbFfRptr := s.usbFfRptr + 1 } = s.stream := by
      rw [stream, stream, hfifo, kbReports_kb, List.append_assoc, List.singleton_append]
      rfl
    exact h.congr hcount' rfl rfl hstream
  · rename_i r hslot
    split
    · exact h
    rename_i hbusy
    rw [hslot] at hfifo
    simp only [usbmouseHidReport, if_neg hbusy]
    have hstream : stream { s with
        mouseBusy := true, hostMouse := s.hostMouse ++ [r], usbFfRptr := s.usbFfRptr + 1 } =
          s.stream := by
      rw [stream, stream, hfifo, kbReports_mouse]
      rfl
    exact h.congr hcount' rfl rfl hstream

/-- **One event.** -/
theorem step_good (h : Good s) {e : Event} (hclean : Clean s e) : Good (s.step e) := by
  cases e with
  | report reads now data => exact report_good h hclean
  | consumerKey reads now key =>
    simp only [step, usbkbReportConsumerKey]
    split
    · rename_i hkey
      have hgood := h.mouseReport (hclean (.inl hkey))
        ⟨usbHidKbMedia, [key.toUInt8, (key >>> 8).toUInt8, 0, 0]⟩
      split
      · exact hgood.congr hgood.count rfl rfl rfl
      · exact hgood.congr hgood.count rfl rfl rfl
    · have hgood := h.releaseMediaKey fun hmedia => hclean (.inr hmedia)
      exact hgood.congr hgood.count rfl rfl rfl
  | mouse reads r => exact h.mouseReport hclean r
  | releaseCheck reads now =>
    simp only [step, usbkbReleaseCheck]
    split
    · rename_i hdue
      rw [Bool.and_eq_true, decide_eq_true_eq] at hdue
      obtain ⟨hsys, hnormal, hmedia⟩ := hclean hdue.1 hdue.2
      have h₁ := h.releaseSysKey hsys
      exact (h₁.toOwed.releaseNormalKey hnormal).releaseMediaKey hmedia
    · exact h
  | fifoProc reads => exact fifoProc_good h reads

theorem boot_good : Good boot := by
  have hstream : boot.stream = [] := rfl
  exact ⟨⟨by decide, fun _ => hstream ▸ settled_nil⟩, fun _ => hstream ▸ settled_nil⟩

/-- **No stuck key**: after a run whose events are clean, when the last report passed to the
keyboard has no key in it and the FIFO is empty, the last report the host has got is the release. -/
theorem no_stuck_key {run : List Event} (hclean : Along step Clean boot run)
    (hreleased : (run.foldl step boot).released = true)
    (hdrained : (run.foldl step boot).usbFfRptr = (run.foldl step boot).usbFfWptr) :
    ∀ r ∈ (run.foldl step boot).host.getLast?, r = .zero := by
  have hgood : Good (run.foldl step boot) :=
    Along.induction (P := fun _ s => Good s) boot_good (fun _ _ h hC => step_good h hC) hclean
  have hsettled := hgood.released hreleased
  rwa [stream, fifo_eq_nil hdrained, kbReports_nil, List.append_nil] at hsettled

/-- A report of the key `key`, or of none, with the endpoints as `read` says. -/
def keyReport (read : Bool) (key : UInt8) : Event :=
  .report ⟨read, read, read⟩ 0 ⟨if key = 0 then 0 else 1, 0, #v[key, 0, 0, 0, 0, 0]⟩

/-- A key is pressed and released, and the host is slow. -/
def slowRun : List Event :=
  [keyReport true 4, keyReport false 0, .fifoProc ⟨false, false, false⟩,
    .fifoProc ⟨true, true, true⟩]

theorem slowRun_releases :
    (slowRun.foldl step boot).host = [⟨0, #v[4, 0, 0, 0, 0, 0]⟩, .zero] ∧
      ∀ r ∈ (slowRun.foldl step boot).host.getLast?, r = .zero :=
  ⟨by decide, no_stuck_key (by decide) (by decide) (by decide)⟩

/-- A key that is pressed before the host has read the release of another one is stuck. -/
theorem second_key_stuck :
    ¬∀ run : List Event, (run.foldl step boot).released = true →
      (run.foldl step boot).usbFfRptr = (run.foldl step boot).usbFfWptr →
        ∀ r ∈ (run.foldl step boot).host.getLast?, r = .zero := by
  intro h
  have := h [keyReport true 4, keyReport true 0, keyReport false 5, keyReport true 0,
    .fifoProc ⟨true, true, true⟩] (by decide) (by decide) ⟨0, #v[5, 0, 0, 0, 0, 0]⟩ (by decide)
  exact absurd this (by decide)

end TcBle.Application.UsbKb
