import TcBle.Foundation.BubbleSort
import TcBle.Foundation.Run
import TcBle.Vendor.SoftTimer

/-!
# The order of the software timers, and when they wake up the chip

Runs of `blt_soft_timer_add`, `blt_soft_timer_delete` and `blt_soft_timer_process`, each at a tick
of its own. Due times are compared circularly, which orders those in a window of 2^30 ticks.

## What is proved

* `sorted_step` — a call leaves the table sorted, if it was and the due times are in such a window.
* `armed_step_iff` — a call leaves the wakeup set to the first due time within the horizon exactly
  when it does not leave alone a wakeup that is disabled.
* `wakeup_iff` — the same for the calls of a run.
-/

namespace TcBle.Vendor

open TcBle.Foundation TcBle.Foundation.Run

/-- A call of the interface, with the tick at which it is made. -/
inductive TimerCall where
  /-- `blt_soft_timer_add`. -/
  | add (func intervalUs now : UInt32)
  /-- `blt_soft_timer_delete`. -/
  | delete (func now : UInt32)
  /-- `blt_soft_timer_process`, with what the callbacks return. -/
  | process (now : UInt32) (res : ℕ → Int32)

namespace TimerCall

/-- The tick. -/
def now : TimerCall → UInt32
  | add _ _ now => now
  | delete _ now => now
  | process now _ => now

/-- The wakeup horizon: five seconds after a deletion, else three. -/
def horizon (tick1us : UInt32) : TimerCall → UInt32
  | delete _ _ => 5000 * (tick1us * 1000)
  | _ => 3000 * (tick1us * 1000)

end TimerCall

/-- The due times lie in a window of less than 2^30 ticks. -/
def Spread (timer : List TimeEvent) : Prop := ∃ base, ∀ e ∈ timer, e.t - base < 0x40000000

/-- The timers are in circular order of their due times. -/
def Sorted (timer : List TimeEvent) : Prop :=
  timer.Pairwise fun a b => timeCompareBig b.t a.t = true

namespace BltSoftTimer

variable (tick1us : UInt32)

/-- No timer yet. -/
def init : BltSoftTimer := ⟨[], Nat.zero_le _, none⟩

/-- A call. -/
def step (s : BltSoftTimer) : TimerCall → BltSoftTimer
  | .add func intervalUs now => (s.bltSoftTimerAdd tick1us now func intervalUs).1
  | .delete func now => (s.bltSoftTimerDelete tick1us now func).1
  | .process now res => (s.bltSoftTimerProcess tick1us now res).1

/-- The wakeup is set to the first due time, if that is less than `limit` away. -/
def Armed (now limit : UInt32) (s : BltSoftTimer) : Prop :=
  ∀ first ∈ s.timer.head?, first.t - now < limit → s.appWakeup = some first.t

/-- The call returns without a look at the wakeup: there is no room for a timer, another timer than
the first is deleted or none is, or the first is not expired. -/
def LeavesWakeup (s : BltSoftTimer) (first : TimeEvent) : TimerCall → Prop
  | .add _ _ _ => maxTimerNum ≤ s.timer.length
  | .delete func _ => first.cb ≠ func
  | .process now _ => bltIsTimerExpired tick1us now first.t = false

/-- A call that leaves the wakeup alone does not find it disabled while the first timer is due
within the horizon. -/
def FindsArmed (s : BltSoftTimer) (call : TimerCall) : Prop :=
  ∀ first ∈ s.timer.head?, LeavesWakeup tick1us s first call →
    first.t - call.now < call.horizon tick1us → s.appWakeup ≠ none

/-- What holds after every call: the table is sorted, and the wakeup is disabled or that of the
first timer. -/
structure Ordered (s : BltSoftTimer) : Prop where
  /-- The table. -/
  sorted : Sorted s.timer
  /-- The wakeup. -/
  wakeup : ∀ t ∈ s.appWakeup, ∀ first ∈ s.timer.head?, t = first.t

end BltSoftTimer

/-! ### The order -/

/-- In a window, the circular comparison is that of the distances from its start. -/
theorem timeCompareBig_iff {base t1 t2 : UInt32} (h1 : t1 - base < 0x40000000)
    (h2 : t2 - base < 0x40000000) :
    timeCompareBig t1 t2 = true ↔ (t2 - base).toNat ≤ (t1 - base).toNat := by
  rw [timeCompareBig, decide_eq_true_iff, UInt32.lt_iff_toNat_lt]
  rw [UInt32.lt_iff_toNat_lt] at h1 h2
  have hsub : t1 - t2 = (t1 - base) - (t2 - base) := by grind
  rw [hsub, UInt32.toNat_sub]
  have hlt := (t1 - base).toNat_lt
  simp only [UInt32.reduceToNat] at h1 h2 ⊢
  omega

theorem sortPass_eq (n : ℕ) (l : List TimeEvent) :
    sortPass n l = BubbleSort.pass (fun a b => timeCompareBig a.t b.t) n l := by
  fun_induction sortPass n l with
  | case1 n a b l h ih => rw [BubbleSort.pass, if_pos h, ih]
  | case2 n a b l h ih => rw [BubbleSort.pass, if_neg h, ih]
  | case3 n l hl =>
    cases n with
    | zero => rfl
    | succ n =>
      cases l with
      | nil => rfl
      | cons a l =>
        cases l with
        | nil => rfl
        | cons b l => exact absurd rfl (hl n a b l rfl)

theorem compares_of_window {base : UInt32} {timer : List TimeEvent}
    (h : ∀ e ∈ timer, e.t - base < 0x40000000) :
    BubbleSort.Compares (fun a b => timeCompareBig a.t b.t)
      (fun e : TimeEvent => (e.t - base).toNat) timer :=
  fun a ha b hb => timeCompareBig_iff (h a ha) (h b hb)

/-- **The sort sorts** due times that are in a window. -/
theorem sorted_bltSoftTimerSort {timer : List TimeEvent} (hroom : timer.length ≤ maxTimerNum)
    (h : Spread (bltSoftTimerSort timer)) : Sorted (bltSoftTimerSort timer) := by
  obtain ⟨base, hbase⟩ := h
  have hsort : bltSoftTimerSort timer =
      BubbleSort.sort (fun a b => timeCompareBig a.t b.t) timer := by
    rw [bltSoftTimerSort]
    split_ifs with hempty
    · obtain rfl : timer = [] := List.length_eq_zero_iff.mp (by omega)
      rfl
    · simp only [sortPass_eq]
      rfl
  have hwindow : ∀ e ∈ timer, e.t - base < 0x40000000 := fun e he =>
    hbase e ((bltSoftTimerSort_perm timer).mem_iff.mpr he)
  have hpairwise := BubbleSort.sort_pairwise (compares_of_window hwindow)
  rw [← hsort] at hpairwise
  refine hpairwise.imp_of_mem fun ha hb hle => ?_
  exact (timeCompareBig_iff (hbase _ hb) (hbase _ ha)).mpr hle

section Walk

variable {tick1us now : UInt32} {res : ℕ → Int32}

/-- As long as no timer is re-armed, timers are only deleted. -/
theorem processEntry_sublist (i : ℕ) (e : TimeEvent) (s : Pass) :
    (processEntry tick1us now res i e s).changeFlg = true ∨
      (processEntry tick1us now res i e s).timer.Sublist s.timer := by
  rw [processEntry]
  simp only
  split_ifs
  · exact Or.inr (List.Sublist.refl _)
  · right
    simp only [bltSoftTimerDeleteByIndex]
    split_ifs
    · exact List.Sublist.refl _
    · exact List.eraseIdx_sublist _ _
  · exact Or.inl rfl
  · exact Or.inl rfl
  · exact Or.inr (List.Sublist.refl _)

theorem processEntry_changeFlg (i : ℕ) (e : TimeEvent) {s : Pass} (h : s.changeFlg = true) :
    (processEntry tick1us now res i e s).changeFlg = true := by
  rw [processEntry]
  simp only
  split_ifs
  · exact h
  · exact h
  · rfl
  · rfl
  · exact h

theorem processLoop_changeFlg (fuel i : ℕ) {s : Pass} (h : s.changeFlg = true) :
    (processLoop tick1us now res fuel i s).changeFlg = true := by
  induction fuel generalizing i s with
  | zero => exact h
  | succ fuel ih =>
    rw [processLoop]
    cases s.timer[i]? with
    | none => exact h
    | some e => exact ih (i + 1) (processEntry_changeFlg i e h)

/-- A loop that re-arms no timer only deletes. -/
theorem processLoop_sublist (fuel i : ℕ) (s : Pass) :
    (processLoop tick1us now res fuel i s).changeFlg = true ∨
      (processLoop tick1us now res fuel i s).timer.Sublist s.timer := by
  induction fuel generalizing i s with
  | zero => exact Or.inr (List.Sublist.refl _)
  | succ fuel ih =>
    rw [processLoop]
    cases s.timer[i]? with
    | none => exact Or.inr (List.Sublist.refl _)
    | some e =>
      cases @processEntry_sublist tick1us now res i e s with
      | inl hflg =>
        exact Or.inl (processLoop_changeFlg fuel (i + 1) hflg)
      | inr hsub =>
        exact (ih (i + 1) _).imp_right fun h => h.trans hsub

end Walk

namespace BltSoftTimer

variable {tick1us : UInt32}

/-! ### One call -/

theorem armed_of_wakeup {now limit : UInt32} {s : BltSoftTimer}
    (h : s.appWakeup = wakeup now limit s.timer) : Armed now limit s := by
  intro first hfirst hnear
  rw [h, wakeup, show s.timer.head? = some first from hfirst, Option.bind_some, if_pos hnear]

theorem eq_of_mem_wakeup {now limit : UInt32} {timer : List TimeEvent} :
    ∀ t ∈ wakeup now limit timer, ∀ first ∈ timer.head?, t = first.t := by
  intro t ht first hfirst
  rw [wakeup, show timer.head? = some first from hfirst, Option.bind_some] at ht
  split_ifs at ht
  · exact (Option.some.inj ht).symm
  · cases ht

/-- The first timer with the callback is deleted, if there is one. -/
theorem delete_timer (s : BltSoftTimer) (func now : UInt32) :
    (s.bltSoftTimerDelete tick1us now func).1.timer =
      s.timer.eraseIdx (s.timer.findIdx fun e => e.cb = func) := by
  rw [bltSoftTimerDelete]
  simp only
  by_cases hlt : s.timer.findIdx (fun e => e.cb = func) < s.timer.length
  · rw [if_pos hlt]
    simp only [bltSoftTimerDeleteByIndex, if_neg (Nat.not_le.mpr hlt)]
  · rw [if_neg hlt, List.eraseIdx_of_length_le (Nat.not_lt.mp hlt)]

/-- The first timer is deleted: the wakeup is set anew. -/
theorem delete_first {s : BltSoftTimer} {first : TimeEvent} {func now : UInt32}
    (hfirst : s.timer.head? = some first) (hcb : first.cb = func) :
    (s.bltSoftTimerDelete tick1us now func).1.appWakeup =
      wakeup now (5000 * (tick1us * 1000)) (s.bltSoftTimerDelete tick1us now func).1.timer := by
  obtain ⟨l, htimer⟩ := List.head?_eq_some_iff.mp hfirst
  have hidx : s.timer.findIdx (fun e => e.cb = func) = 0 := by
    rw [htimer, List.findIdx_cons]
    simp [hcb]
  have hlt : 0 < s.timer.length := by simp [htimer]
  rw [bltSoftTimerDelete]
  simp only [hidx, if_pos hlt, if_true]
  split_ifs with hnil
  · rw [hnil]
    rfl
  · rfl

/-- Another timer than the first is deleted, or none: the first one and the wakeup stay. -/
theorem delete_other {s : BltSoftTimer} {func now : UInt32}
    (hcb : ∀ first ∈ s.timer.head?, first.cb ≠ func) :
    (s.bltSoftTimerDelete tick1us now func).1.timer.head? = s.timer.head? ∧
      (s.bltSoftTimerDelete tick1us now func).1.appWakeup = s.appWakeup := by
  cases htimer : s.timer with
  | nil =>
    have hlt : ¬s.timer.findIdx (fun e => e.cb = func) < s.timer.length := by simp [htimer]
    rw [bltSoftTimerDelete]
    simp only [if_neg hlt]
    exact ⟨by rw [htimer], trivial⟩
  | cons first l =>
    have hne : first.cb ≠ func := hcb first (by rw [htimer]; rfl)
    have hidx : s.timer.findIdx (fun e => e.cb = func) =
        l.findIdx (fun e => e.cb = func) + 1 := by
      rw [htimer, List.findIdx_cons]
      simp [hne]
    refine ⟨?_, ?_⟩
    · rw [delete_timer, hidx, htimer, List.eraseIdx_cons_succ]
      rfl
    · rw [bltSoftTimerDelete]
      simp only
      split_ifs with hlt hnil hzero
      · -- the first timer is still there
        rw [bltSoftTimerDeleteByIndex, if_neg (Nat.not_le.mpr hlt), hidx, htimer,
          List.eraseIdx_cons_succ] at hnil
        cases hnil
      · rw [hidx] at hzero
        cases hzero
      · rfl
      · rfl

/-- A call of `blt_soft_timer_process` that returns early. -/
theorem process_early {s : BltSoftTimer} {first : TimeEvent} {now : UInt32} {res : ℕ → Int32}
    (hfirst : s.timer.head? = some first) (h : bltIsTimerExpired tick1us now first.t = false) :
    (s.bltSoftTimerProcess tick1us now res).1 = s := by
  simp only [bltSoftTimerProcess, hfirst, h, Bool.not_false, if_true]

/-- A call of `blt_soft_timer_process` that goes through the table. -/
theorem process_through {s : BltSoftTimer} {first : TimeEvent} {now : UInt32} {res : ℕ → Int32}
    (hfirst : s.timer.head? = some first) (h : bltIsTimerExpired tick1us now first.t = true) :
    (s.bltSoftTimerProcess tick1us now res).1.timer =
        (if (processTable tick1us now res s.timer).changeFlg then
          bltSoftTimerSort (processTable tick1us now res s.timer).timer
        else (processTable tick1us now res s.timer).timer) ∧
      (s.bltSoftTimerProcess tick1us now res).1.appWakeup =
        wakeup now (3000 * (tick1us * 1000)) (s.bltSoftTimerProcess tick1us now res).1.timer := by
  simp only [bltSoftTimerProcess, hfirst, h, Bool.not_true, Bool.false_eq_true, if_false]
  exact ⟨trivial, trivial⟩

/-- What a call comes to: it leaves the first timer and the wakeup alone, or sets the wakeup. -/
theorem step_cases (s : BltSoftTimer) (call : TimerCall) :
    ((s.step tick1us call).timer.head? = s.timer.head? ∧
        (s.step tick1us call).appWakeup = s.appWakeup ∧
        ∀ first ∈ s.timer.head?, LeavesWakeup tick1us s first call) ∨
      (Armed call.now (call.horizon tick1us) (s.step tick1us call) ∧
        (∀ t ∈ (s.step tick1us call).appWakeup, ∀ first ∈ (s.step tick1us call).timer.head?,
          t = first.t) ∧
        ∀ first ∈ s.timer.head?, ¬LeavesWakeup tick1us s first call) := by
  cases call with
  | add func intervalUs now =>
    by_cases hfull : maxTimerNum ≤ s.timer.length
    · left
      rw [step, bltSoftTimerAdd, dif_pos hfull]
      exact ⟨rfl, rfl, fun _ _ => hfull⟩
    · right
      rw [step, bltSoftTimerAdd, dif_neg hfull]
      refine ⟨fun first hfirst _ => ?_, fun t ht first hfirst => ?_, fun _ _ => hfull⟩
      · exact Option.map_eq_some_iff.mpr ⟨first, hfirst, rfl⟩
      · obtain ⟨first', hfirst', rfl⟩ := Option.map_eq_some_iff.mp ht
        rw [Option.mem_unique hfirst hfirst']
  | delete func now =>
    by_cases hcb : ∃ first ∈ s.timer.head?, first.cb = func
    · right
      obtain ⟨first, hfirst, hcb⟩ := hcb
      have hwakeup := @delete_first tick1us s first func now hfirst hcb
      refine ⟨?_, ?_, fun first' hfirst' hne => ?_⟩
      · exact armed_of_wakeup hwakeup
      · rw [step, hwakeup]
        exact eq_of_mem_wakeup
      · rw [Option.mem_unique hfirst' hfirst] at hne
        exact hne hcb
    · left
      have hne : ∀ first ∈ s.timer.head?, first.cb ≠ func :=
        fun first hfirst hcb' => hcb ⟨first, hfirst, hcb'⟩
      exact ⟨(delete_other hne).1, (delete_other hne).2, hne⟩
  | process now res =>
    rw [step]
    cases hfirst : s.timer.head? with
    | none =>
      right
      have hnone : (s.bltSoftTimerProcess tick1us now res).1 = { s with appWakeup := none } := by
        simp only [bltSoftTimerProcess, hfirst]
      simp [Armed, hnone, hfirst]
    | some first =>
      cases hexp : bltIsTimerExpired tick1us now first.t with
      | false =>
        left
        rw [process_early hfirst hexp]
        refine ⟨hfirst, rfl, fun first' hfirst' => ?_⟩
        rw [← Option.some.inj hfirst']
        exact hexp
      | true =>
        right
        obtain ⟨-, hwakeup⟩ := @process_through tick1us s first now res hfirst hexp
        refine ⟨armed_of_wakeup hwakeup, ?_, fun first' hfirst' hleaves => ?_⟩
        · rw [hwakeup]
          exact eq_of_mem_wakeup
        · rw [← Option.some.inj hfirst'] at hleaves
          exact absurd hleaves (by simp [LeavesWakeup, hexp])

/-- **A call leaves the table sorted**, where the due times are in a window. -/
theorem sorted_step {s : BltSoftTimer} {call : TimerCall} (h : Sorted s.timer)
    (hspread : Spread (s.step tick1us call).timer) : Sorted (s.step tick1us call).timer := by
  cases call with
  | add func intervalUs now =>
    rw [step, bltSoftTimerAdd] at hspread ⊢
    split_ifs at hspread ⊢ with hfull
    · exact h
    · refine sorted_bltSoftTimerSort ?_ hspread
      rw [List.length_append]
      exact Nat.not_le.mp hfull
  | delete func now =>
    refine h.sublist ?_
    rw [step, delete_timer]
    exact List.eraseIdx_sublist _ _
  | process now res =>
    rw [step] at hspread ⊢
    cases hfirst : s.timer.head? with
    | none =>
      have hnone : (s.bltSoftTimerProcess tick1us now res).1.timer = s.timer := by
        simp only [bltSoftTimerProcess, hfirst]
      rwa [hnone]
    | some first =>
      cases hexp : bltIsTimerExpired tick1us now first.t with
      | false => rwa [process_early hfirst hexp]
      | true =>
        obtain ⟨htimer, -⟩ := @process_through tick1us s first now res hfirst hexp
        rw [htimer] at hspread ⊢
        have hroom : (processTable tick1us now res s.timer).timer.length ≤ maxTimerNum :=
          Nat.le_trans (length_processTable_le s.timer) s.room
        split_ifs at hspread ⊢ with hflg
        · exact sorted_bltSoftTimerSort hroom hspread
        · -- no timer was re-armed
          rcases @processLoop_sublist tick1us now res s.timer.length 0 ⟨s.timer, false, []⟩ with
            hchanged | hsub
          · exact absurd hchanged hflg
          · exact h.sublist hsub

/-- **The wakeup after a call**. -/
theorem armed_step_iff {s : BltSoftTimer} (h : Ordered s) (call : TimerCall) :
    Armed call.now (call.horizon tick1us) (s.step tick1us call) ↔ FindsArmed tick1us s call := by
  rcases step_cases s call with ⟨hhead, hwakeup, hleaves⟩ | ⟨harmed, -, hresets⟩
  · rw [Armed, hhead, hwakeup]
    constructor
    · intro harmed first hfirst _ hnear
      rw [harmed first hfirst hnear]
      exact Option.some_ne_none _
    · intro hfinds first hfirst hnear
      obtain ⟨t, ht⟩ := Option.ne_none_iff_exists'.mp
        (hfinds first hfirst (hleaves first hfirst) hnear)
      rw [ht, h.wakeup t ht first hfirst]
  · exact ⟨fun _ first hfirst hleaves => absurd hleaves (hresets first hfirst), fun _ => harmed⟩

theorem ordered_init : Ordered init := ⟨List.Pairwise.nil, fun _ h => by cases h⟩

theorem ordered_step {s : BltSoftTimer} (h : Ordered s) {call : TimerCall}
    (hspread : Spread (s.step tick1us call).timer) : Ordered (s.step tick1us call) where
  sorted := sorted_step h.sorted hspread
  wakeup := by
    rcases step_cases s call with ⟨hhead, hwakeup, -⟩ | ⟨-, hwakeup, -⟩
    · rw [hhead, hwakeup]
      exact h.wakeup
    · exact hwakeup

/-! ### Runs -/

variable (tick1us) in
/-- **Order and wakeup over a run**: where the due times are in a window after every call, every
call leaves the table sorted and the wakeup set to the first timer, if that is due within the
horizon, exactly when every call that leaves the wakeup alone finds it so. -/
theorem wakeup_iff (calls : List TimerCall)
    (hspread : Along (step tick1us) (fun s call => Spread (s.step tick1us call).timer) init calls) :
    Along (step tick1us) (fun s call => Sorted (s.step tick1us call).timer ∧
        Armed call.now (call.horizon tick1us) (s.step tick1us call)) init calls ↔
      Along (step tick1us) (FindsArmed tick1us) init calls := by
  refine Along.congr (fun s call (h : Ordered s) hspread => ?_)
    (fun s call h hspread _ => ordered_step h hspread) ordered_init hspread
  rw [armed_step_iff h, and_iff_right (sorted_step h.sorted hspread)]

/-- A timer of a millisecond that runs on. -/
def oneTimer : List TimerCall := [.add 0x8000 1000 0, .process 16000 fun _ => 0]

theorem oneTimer_wakes :
    Along (step 16) (fun s call => Sorted (s.step 16 call).timer ∧
      Armed call.now (call.horizon 16) (s.step 16 call)) init oneTimer := by
  refine (wakeup_iff 16 oneTimer ⟨⟨0, ?_⟩, ⟨0, ?_⟩, trivial⟩).mpr ⟨?_, ?_, trivial⟩
  · decide
  · decide
  · intro first hfirst
    cases hfirst
  · intro first hfirst hleaves
    cases hfirst
    cases hleaves

/-- A timer of four seconds and one of a millisecond that is deleted by its callback; then a call
two seconds before the other one is due. -/
def fourSeconds : List TimerCall :=
  [.add 0x8000 4000000 0, .add 0x9000 1000 0, .process 16000 fun _ => -1,
    .process 32000000 fun _ => 0]

/-- **The wakeup stays disabled**: it was when the timer was four seconds away, and the call that
finds it within the horizon returns early. -/
theorem fourSeconds_sleeps :
    ∃ calls : List TimerCall,
      (∀ func intervalUs now, .add func intervalUs now ∈ calls → intervalUs.toNat * 16 < 2 ^ 30) ∧
      Along (step 16) (fun s call => Spread (s.step 16 call).timer) init calls ∧
      ¬Along (step 16) (fun s call => Sorted (s.step 16 call).timer ∧
        Armed call.now (call.horizon 16) (s.step 16 call)) init calls := by
  refine ⟨fourSeconds, ?_, ⟨⟨0, ?_⟩, ⟨0, ?_⟩, ⟨0, ?_⟩, ⟨0, ?_⟩, trivial⟩, ?_⟩
  · intro func intervalUs now hadd
    simp only [fourSeconds, List.mem_cons, TimerCall.add.injEq, reduceCtorEq, List.not_mem_nil,
      or_false] at hadd
    rcases hadd with ⟨-, rfl, -⟩ | ⟨-, rfl, -⟩
    · decide
    · decide
  · decide
  · decide
  · decide
  · decide
  · rintro ⟨-, -, -, ⟨-, harmed⟩, -⟩
    have := harmed ⟨0x8000, 64000000, 64000000⟩ (by decide) (by decide)
    cases this

end BltSoftTimer

end TcBle.Vendor
