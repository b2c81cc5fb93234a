import Mathlib.Algebra.Ring.Nat
import Mathlib.Data.List.Perm.Basic
import Mathlib.Tactic.Common

/-!
# The software timers

`blt_soft_timer.c`: a table of at most four timers, sorted by due time, whose callbacks are run
by `blt_soft_timer_process`.

## The model

The table is the list of its valid entries, and a callback its address, `0` for `NULL`. The result
of the `k`-th callback that one call of `blt_soft_timer_process` runs is `res k`; callbacks do not
add or delete timers. `tick1us` is `SYSTEM_TIMER_TICK_1US`, which depends on the chip. The argument
of `blt_soft_timer_process` has no effect and is left out.

## What is proved

* `loop_eq_walk` — the loop over the table, by index, is a walk through the list that leaves the
  entry behind a deleted one alone.
* `law_iff` — a call runs the callbacks of exactly the timers that are due, deletes those that ask
  for it and re-arms the others, exactly when the first timer is expired or none is due, and no
  timer that is deleted stands right in front of one that is due.
-/

namespace TcBle.Vendor

/-- `blt_time_event_t`. -/
structure TimeEvent where
  /-- `cb`. -/
  cb : UInt32
  /-- `t`. -/
  t : UInt32
  /-- `interval`. -/
  interval : UInt32
  deriving DecidableEq

/-- `MAX_TIMER_NUM`. -/
def maxTimerNum : ℕ := 4

/-- `blt_soft_timer_t`, and what `blc_pm_setAppWakeupLowPower` was last called with. -/
structure BltSoftTimer where
  /-- The valid entries of `timer`. -/
  timer : List TimeEvent
  /-- There is room for them. -/
  room : timer.length ≤ maxTimerNum
  /-- The tick to wake up at, if enabled. -/
  appWakeup : Option UInt32

/-- `TIME_COMPARE_BIG`. -/
def timeCompareBig (t1 t2 : UInt32) : Bool := t1 - t2 < 0x40000000

/-- The inner loop of the sort: `n` comparisons from the front of the list. -/
def sortPass : ℕ → List TimeEvent → List TimeEvent
  | n + 1, a :: b :: l =>
    if timeCompareBig a.t b.t then b :: sortPass n (a :: l) else a :: sortPass n (b :: l)
  | _, l => l

/-- `blt_soft_timer_sort`. -/
def bltSoftTimerSort (timer : List TimeEvent) : List TimeEvent :=
  if timer.length < 1 ∨ maxTimerNum < timer.length then timer
  else (List.range (timer.length - 1)).foldl (fun l i => sortPass (timer.length - i - 1) l) timer

/-- `blt_soft_timer_delete_by_index`. -/
def bltSoftTimerDeleteByIndex (index : ℕ) (timer : List TimeEvent) : List TimeEvent :=
  if timer.length ≤ index then timer else timer.eraseIdx index

section Process

variable (tick1us : UInt32) (now : UInt32) (res : ℕ → Int32)

/-- `blt_is_timer_expired`. -/
def bltIsTimerExpired (t : UInt32) : Bool := now + (tick1us <<< 7) - t < (tick1us * 1000000) <<< 2

/-- The local variables of the loop, and the callbacks run, with their results. -/
structure Pass where
  /-- The table. -/
  timer : List TimeEvent
  /-- `change_flg`. -/
  changeFlg : Bool
  /-- What was run. -/
  calls : List (TimeEvent × Int32)

/-- The body of the loop, for the entry `e` at `i`. -/
def processEntry (i : ℕ) (e : TimeEvent) (s : Pass) : Pass :=
  if bltIsTimerExpired tick1us now e.t then
    if e.cb = 0 then s
    else
      let result := res s.calls.length
      let s := { s with calls := s.calls ++ [(e, result)] }
      if result < 0 then { s with timer := bltSoftTimerDeleteByIndex i s.timer }
      else if result = 0 then
        { s with changeFlg := true, timer := s.timer.set i { e with t := now + e.interval } }
      else
        let interval := result.toUInt32 * tick1us
        { s with changeFlg := true
                 timer := s.timer.set i { e with interval := interval, t := now + interval } }
  else s

/-- The loop from `i` on, `fuel` rounds at most. -/
def processLoop : ℕ → ℕ → Pass → Pass
  | 0, _, s => s
  | fuel + 1, i, s =>
    match s.timer[i]? with
    | some e => processLoop fuel (i + 1) (processEntry tick1us now res i e s)
    | none => s

/-- A timer is due: it is expired, and has a callback. -/
def due (e : TimeEvent) : Bool := bltIsTimerExpired tick1us now e.t && e.cb ≠ 0

/-- What becomes of a timer whose callback was run. -/
def rearmed (call : TimeEvent × Int32) : Option TimeEvent :=
  if call.2 < 0 then none
  else if call.2 = 0 then some { call.1 with t := now + call.1.interval }
  else
    some { call.1 with interval := call.2.toUInt32 * tick1us, t := now + call.2.toUInt32 * tick1us }

/-- A walk through the entries that are left, the first of which is passed over if `skip` is set;
`k` callbacks were run. -/
def walk : Bool → ℕ → List TimeEvent → List TimeEvent × List (TimeEvent × Int32)
  | _, _, [] => ([], [])
  | true, k, a :: l => (a :: (walk false k l).1, (walk false k l).2)
  | false, k, a :: l =>
    if due tick1us now a then
      match rearmed tick1us now (a, res k) with
      | none => ((walk true (k + 1) l).1, (a, res k) :: (walk true (k + 1) l).2)
      | some b => (b :: (walk false (k + 1) l).1, (a, res k) :: (walk false (k + 1) l).2)
    else (a :: (walk false k l).1, (walk false k l).2)

variable {tick1us now res}

/-! ### The loop -/

/-- The body of the loop leaves an entry that is not due alone. -/
theorem processEntry_of_not_due {i : ℕ} {e : TimeEvent} (h : due tick1us now e = false) (s : Pass) :
    processEntry tick1us now res i e s = s := by
  simp only [due, Bool.and_eq_false_iff, decide_eq_false_iff_not, not_not] at h
  unfold processEntry
  cases h with
  | inl h =>
    rw [if_neg (by simp [h])]
  | inr h =>
    rw [if_pos h, ite_self]

/-- The body of the loop for an entry that is due. -/
theorem processEntry_of_due {pre l : List TimeEvent} {e : TimeEvent} {s : Pass}
    (h : due tick1us now e = true) (hs : s.timer = pre ++ e :: l) :
    (processEntry tick1us now res pre.length e s).timer =
        pre ++ (rearmed tick1us now (e, res s.calls.length)).toList ++ l ∧
      (processEntry tick1us now res pre.length e s).calls =
        s.calls ++ [(e, res s.calls.length)] := by
  simp only [due, Bool.and_eq_true, decide_eq_true_eq] at h
  rw [processEntry, if_pos h.1, if_neg h.2, rearmed]
  simp only
  split_ifs
  · refine ⟨?_, rfl⟩
    rw [bltSoftTimerDeleteByIndex, hs, if_neg (by simp)]
    simp [List.eraseIdx_append_of_length_le]
  · refine ⟨?_, rfl⟩
    simp [hs]
  · refine ⟨?_, rfl⟩
    simp [hs]

/-- **The loop by index is a walk through the list.** -/
theorem loop_eq_walk (fuel : ℕ) (pre l : List TimeEvent) (s : Pass) (hs : s.timer = pre ++ l)
    (hfuel : l.length ≤ fuel) :
    (processLoop tick1us now res fuel pre.length s).timer =
        pre ++ (walk tick1us now res false s.calls.length l).1 ∧
      (processLoop tick1us now res fuel pre.length s).calls =
        s.calls ++ (walk tick1us now res false s.calls.length l).2 := by
  induction fuel generalizing pre l s with
  | zero =>
    obtain rfl := List.length_eq_zero_iff.mp (Nat.le_zero.mp hfuel)
    exact ⟨hs, by simp [processLoop, walk]⟩
  | succ fuel ih =>
    cases l with
    | nil =>
      rw [processLoop, hs]
      simp [walk, hs]
    | cons e l =>
      have hget : s.timer[pre.length]? = some e := by simp [hs]
      have hlen : l.length ≤ fuel := Nat.le_of_succ_le_succ hfuel
      rw [processLoop, hget]
      simp only
      by_cases hdue : due tick1us now e = true
      · obtain ⟨htimer, hcalls⟩ := @processEntry_of_due tick1us now res _ _ _ _ hdue hs
        have hk : (processEntry tick1us now res pre.length e s).calls.length =
            s.calls.length + 1 := by simp [hcalls]
        rw [walk, if_pos hdue]
        cases hre : rearmed tick1us now (e, res s.calls.length) with
        | some b =>
          rw [hre] at htimer
          have := ih (pre ++ [b]) l _ (by simpa using htimer) hlen
          rw [List.length_append, List.length_singleton, hk] at this
          simp [this, hcalls]
        | none =>
          rw [hre] at htimer
          cases l with
          | nil =>
            -- the loop is over: the table ends before the next index
            have hend : ∀ fuel, processLoop tick1us now res fuel (pre.length + 1)
                (processEntry tick1us now res pre.length e s) =
                processEntry tick1us now res pre.length e s := by
              intro fuel
              cases fuel with
              | zero => rfl
              | succ fuel =>
                rw [processLoop, List.getElem?_eq_none (by simp [htimer])]
            rw [hend]
            simp [htimer, hcalls, walk]
          | cons b l =>
            -- the next entry has moved to index `i`, and the loop goes on at `i + 1`
            have := ih (pre ++ [b]) l _ (by simpa using htimer) (by
              rw [List.length_cons] at hlen
              omega)
            rw [List.length_append, List.length_singleton, hk] at this
            simp [this, hcalls, walk]
      · have hdue' : due tick1us now e = false := by simpa using hdue
        rw [processEntry_of_not_due hdue', walk, if_neg hdue]
        have := ih (pre ++ [e]) l s (by simpa using hs) hlen
        rw [List.length_append, List.length_singleton] at this
        simp [this]

/-! ### The walk -/

variable (tick1us now res) in
/-- No entry that is due is passed over. -/
def Clear : Bool → ℕ → List TimeEvent → Prop
  | _, _, [] => True
  | true, k, a :: l => due tick1us now a = false ∧ Clear false k l
  | false, k, a :: l =>
    if due tick1us now a then Clear (decide (res k < 0)) (k + 1) l else Clear false k l

theorem rearmed_eq_none_iff (a : TimeEvent) (r : Int32) :
    rearmed tick1us now (a, r) = none ↔ r < 0 := by
  unfold rearmed
  split_ifs with h <;> simp [h]

/-- A walk runs at most what is due. -/
theorem length_walk_le (skip : Bool) (k : ℕ) (l : List TimeEvent) :
    (walk tick1us now res skip k l).2.length ≤ l.countP (due tick1us now) := by
  induction l generalizing skip k with
  | nil => cases skip <;> simp [walk]
  | cons a l ih =>
    cases skip with
    | true =>
      rw [walk, List.countP_cons]
      exact Nat.le_add_right_of_le (ih false k)
    | false =>
      rw [walk, List.countP_cons]
      split_ifs with hdue
      · cases rearmed tick1us now (a, res k) with
        | none => exact Nat.succ_le_succ (ih true (k + 1))
        | some b => exact Nat.succ_le_succ (ih false (k + 1))
      · exact ih false k

/-- **A walk that passes over an entry that is due** does not run all that is. -/
theorem length_walk_lt {skip : Bool} {k : ℕ} {l : List TimeEvent}
    (h : ¬Clear tick1us now res skip k l) :
    (walk tick1us now res skip k l).2.length < l.countP (due tick1us now) := by
  induction l generalizing skip k with
  | nil => cases skip <;> exact absurd trivial h
  | cons a l ih =>
    cases skip with
    | true =>
      rw [walk, List.countP_cons]
      cases hdue : due tick1us now a with
      | true => exact Nat.lt_succ_of_le (length_walk_le false k l)
      | false => exact ih fun hclear => h ⟨hdue, hclear⟩
    | false =>
      rw [Clear] at h
      rw [walk, List.countP_cons]
      split_ifs at h ⊢ with hdue
      · cases hre : rearmed tick1us now (a, res k) with
        | none =>
          rw [decide_eq_true ((rearmed_eq_none_iff a _).mp hre)] at h
          exact Nat.succ_lt_succ (ih h)
        | some b =>
          have hneg : ¬res k < 0 := fun hneg => by
            rw [(rearmed_eq_none_iff a _).mpr hneg] at hre
            cases hre
          rw [decide_eq_false hneg] at h
          exact Nat.succ_lt_succ (ih h)
      · exact ih h

/-- **A walk that passes over no entry that is due** runs all that are, in order, and keeps, deletes
and re-arms what it should. -/
theorem walk_of_clear {skip : Bool} {k : ℕ} {l : List TimeEvent}
    (h : Clear tick1us now res skip k l) :
    (walk tick1us now res skip k l).2.map Prod.fst = l.filter (due tick1us now) ∧
      ((walk tick1us now res skip k l).1).Perm (l.filter (fun e => !due tick1us now e) ++
        (walk tick1us now res skip k l).2.filterMap (rearmed tick1us now)) := by
  induction l generalizing skip k with
  | nil => cases skip <;> simp [walk]
  | cons a l ih =>
    cases skip with
    | true =>
      obtain ⟨hdue, hclear⟩ := h
      obtain ⟨hran, hkept⟩ := ih hclear
      simp only [walk, List.filter_cons, hdue, Bool.not_false, Bool.false_eq_true, if_true,
        if_false, List.cons_append]
      exact ⟨hran, hkept.cons a⟩
    | false =>
      rw [Clear] at h
      rw [walk]
      split_ifs at h ⊢ with hdue
      · simp only [List.filter_cons, hdue, Bool.not_true, Bool.false_eq_true, if_true, if_false]
        cases hre : rearmed tick1us now (a, res k) with
        | none =>
          rw [decide_eq_true ((rearmed_eq_none_iff a _).mp hre)] at h
          obtain ⟨hran, hkept⟩ := ih h
          simp only [List.map_cons, hran, List.filterMap_cons, hre]
          exact ⟨trivial, hkept⟩
        | some b =>
          have hneg : ¬res k < 0 := fun hneg => by
            rw [(rearmed_eq_none_iff a _).mpr hneg] at hre
            cases hre
          rw [decide_eq_false hneg] at h
          obtain ⟨hran, hkept⟩ := ih h
          simp only [List.map_cons, hran, List.filterMap_cons, hre]
          exact ⟨trivial, (hkept.cons b).trans List.perm_middle.symm⟩
      · have hdue' : due tick1us now a = false := by simpa using hdue
        obtain ⟨hran, hkept⟩ := ih h
        simp only [List.filter_cons, hdue', Bool.not_false, Bool.false_eq_true, if_true, if_false,
          List.cons_append]
        exact ⟨hran, hkept.cons a⟩

/-! ### The condition -/

/-- No timer that is deleted stands right in front of one that is due. -/
def NoNeighbours (tick1us now : UInt32) (res : ℕ → Int32) (k : ℕ) (l : List TimeEvent) : Prop :=
  ∀ pre a b post, l = pre ++ a :: b :: post → due tick1us now a = true → due tick1us now b = true →
    ¬res (k + pre.countP (due tick1us now)) < 0

theorem noNeighbours_cons {k : ℕ} {a : TimeEvent} {l : List TimeEvent} :
    NoNeighbours tick1us now res k (a :: l) ↔
      (due tick1us now a = true → res k < 0 → ∀ b ∈ l.head?, due tick1us now b = false) ∧
        NoNeighbours tick1us now res (if due tick1us now a then k + 1 else k) l := by
  constructor
  · intro h
    refine ⟨fun ha hneg b hb => ?_, fun pre x y post hl hx hy => ?_⟩
    · obtain ⟨post, rfl⟩ := List.head?_eq_some_iff.mp hb
      by_contra hdue
      exact h [] a b post rfl ha (by simpa using hdue) hneg
    · have := h (a :: pre) x y post (by rw [hl]; rfl) hx hy
      rw [List.countP_cons] at this
      split_ifs at this ⊢
      · rwa [Nat.add_assoc, Nat.add_comm 1]
      · exact this
  · rintro ⟨hhead, htail⟩ pre x y post hl hx hy
    cases pre with
    | nil =>
      obtain ⟨rfl, rfl⟩ := List.cons.inj hl
      intro hneg
      rw [hhead hx hneg y rfl] at hy
      cases hy
    | cons a' pre =>
      obtain ⟨rfl, rfl⟩ := List.cons.inj hl
      have := htail pre x y post rfl hx hy
      rw [List.countP_cons]
      split_ifs at this ⊢
      · rwa [Nat.add_assoc, Nat.add_comm 1] at this
      · exact this

theorem clear_iff {skip : Bool} {k : ℕ} {l : List TimeEvent} :
    Clear tick1us now res skip k l ↔
      (skip = true → ∀ b ∈ l.head?, due tick1us now b = false) ∧
        NoNeighbours tick1us now res k l := by
  induction l generalizing skip k with
  | nil => simp [Clear, NoNeighbours]
  | cons a l ih =>
    rw [noNeighbours_cons]
    cases skip with
    | true =>
      rw [Clear, ih]
      simp
      intro hdue
      simp [hdue]
    | false =>
      rw [Clear]
      split_ifs with hdue
      · rw [ih]
        simp [hdue]
      · rw [ih]
        simp [hdue]

/-! ### Sorting -/

theorem sortPass_perm (n : ℕ) (l : List TimeEvent) : (sortPass n l).Perm l := by
  fun_induction sortPass n l with
  | case1 n a b l h ih => exact (ih.cons b).trans (List.Perm.swap a b l)
  | case2 n a b l h ih => exact ih.cons a
  | case3 => exact List.Perm.refl _

theorem bltSoftTimerSort_perm (timer : List TimeEvent) : (bltSoftTimerSort timer).Perm timer := by
  rw [bltSoftTimerSort]
  split_ifs
  · exact List.Perm.refl _
  · have hpass : ∀ (is l : List _) (n : ℕ),
        ((is.foldl (fun l i => sortPass (n - i - 1) l) l : List TimeEvent)).Perm l := by
      intro is l n
      induction is generalizing l with
      | nil => exact List.Perm.refl _
      | cons i is ih => exact (ih _).trans (sortPass_perm _ l)
    exact hpass _ _ _

/-- A walk does not add entries. -/
theorem length_walk_timer_le (skip : Bool) (k : ℕ) (l : List TimeEvent) :
    (walk tick1us now res skip k l).1.length ≤ l.length := by
  induction l generalizing skip k with
  | nil => cases skip <;> exact Nat.le_refl _
  | cons a l ih =>
    cases skip with
    | true => exact Nat.succ_le_succ (ih false k)
    | false =>
      rw [walk]
      split_ifs
      · cases rearmed tick1us now (a, res k) with
        | none => exact Nat.le_succ_of_le (ih true (k + 1))
        | some b => exact Nat.succ_le_succ (ih false (k + 1))
      · exact Nat.succ_le_succ (ih false k)

variable (tick1us now res) in
/-- The whole loop. -/
def processTable (timer : List TimeEvent) : Pass :=
  processLoop tick1us now res timer.length 0 ⟨timer, false, []⟩

theorem processTable_eq_walk (timer : List TimeEvent) :
    (processTable tick1us now res timer).timer = (walk tick1us now res false 0 timer).1 ∧
      (processTable tick1us now res timer).calls = (walk tick1us now res false 0 timer).2 := by
  have := @loop_eq_walk tick1us now res timer.length [] timer ⟨timer, false, []⟩ rfl
    (Nat.le_refl _)
  simpa [processTable] using this

theorem length_processTable_le (timer : List TimeEvent) :
    (processTable tick1us now res timer).timer.length ≤ timer.length := by
  rw [(processTable_eq_walk timer).1]
  exact length_walk_timer_le false 0 timer

variable (now) in
/-- When to wake up: at the first due time, if it is less than `limit` away. -/
def wakeup (limit : UInt32) (timer : List TimeEvent) : Option UInt32 :=
  timer.head?.bind fun e => if e.t - now < limit then some e.t else none

end Process

namespace BltSoftTimer

variable (tick1us now : UInt32) (res : ℕ → Int32)

/-- `blt_soft_timer_add`, with what it returns. -/
def bltSoftTimerAdd (func intervalUs : UInt32) (s : BltSoftTimer) : BltSoftTimer × ℕ :=
  if h : maxTimerNum ≤ s.timer.length then (s, 0)
  else
    let interval := intervalUs * tick1us
    let timer := bltSoftTimerSort (s.timer ++ [⟨func, now + interval, interval⟩])
    (⟨timer, by
      rw [(bltSoftTimerSort_perm _).length_eq, List.length_append]
      exact Nat.not_le.mp h, timer.head?.map TimeEvent.t⟩, 1)

/-- `blt_soft_timer_delete`, with what it returns. -/
def bltSoftTimerDelete (func : UInt32) (s : BltSoftTimer) : BltSoftTimer × ℕ :=
  let i := s.timer.findIdx fun e => e.cb = func
  if i < s.timer.length then
    let timer := bltSoftTimerDeleteByIndex i s.timer
    (⟨timer, by
      have hle : timer.length ≤ s.timer.length := by
        simp only [timer, bltSoftTimerDeleteByIndex]
        split_ifs
        · exact Nat.le_refl _
        · exact List.length_eraseIdx_le _ _
      exact Nat.le_trans hle s.room,
      if timer = [] then none
      else if i = 0 then wakeup now (5000 * (tick1us * 1000)) timer
      else s.appWakeup⟩, 1)
  else (s, 0)

/-- `blt_soft_timer_process`, with the callbacks run and their results. -/
def bltSoftTimerProcess (s : BltSoftTimer) : BltSoftTimer × List (TimeEvent × Int32) :=
  match s.timer.head? with
  | none => ({ s with appWakeup := none }, [])
  | some first =>
    if !bltIsTimerExpired tick1us now first.t then (s, [])
    else
      let r := processTable tick1us now res s.timer
      let timer := if r.changeFlg then bltSoftTimerSort r.timer else r.timer
      (⟨timer, by
        have hperm : timer.Perm r.timer := by
          simp only [timer]
          split_ifs
          · exact bltSoftTimerSort_perm _
          · exact List.Perm.refl _
        rw [hperm.length_eq]
        exact Nat.le_trans (length_processTable_le s.timer) s.room,
        wakeup now (3000 * (tick1us * 1000)) timer⟩, r.calls)

/-- The tables that calls of the interface lead to. -/
inductive Reachable : BltSoftTimer → Prop where
  /-- At first there is no timer. -/
  | init : Reachable ⟨[], Nat.zero_le _, none⟩
  /-- `blt_soft_timer_add`. -/
  | add {s : BltSoftTimer} (func intervalUs now : UInt32) :
    Reachable s → Reachable (s.bltSoftTimerAdd tick1us now func intervalUs).1
  /-- `blt_soft_timer_delete`. -/
  | delete {s : BltSoftTimer} (func now : UInt32) :
    Reachable s → Reachable (s.bltSoftTimerDelete tick1us now func).1
  /-- `blt_soft_timer_process`. -/
  | process {s : BltSoftTimer} (now : UInt32) (res : ℕ → Int32) :
    Reachable s → Reachable (s.bltSoftTimerProcess tick1us now res).1

/-- **What a call is for**: it runs the callback of every timer that is due once, and of no other;
the timers whose callback returned a negative value are gone, the others have a new due time, and
those that were not due are as they were. -/
structure Law (s : BltSoftTimer) : Prop where
  /-- What was run is what was due. -/
  ran : ((s.bltSoftTimerProcess tick1us now res).2.map Prod.fst).Perm
    (s.timer.filter (due tick1us now))
  /-- What is left. -/
  left : (s.bltSoftTimerProcess tick1us now res).1.timer.Perm
    (s.timer.filter (fun e => !due tick1us now e) ++
      (s.bltSoftTimerProcess tick1us now res).2.filterMap (rearmed tick1us now))

variable {tick1us now res}

/-- A call that finds the first timer not expired, or no timer. -/
theorem process_of_not_expired {s : BltSoftTimer}
    (h : ∀ first ∈ s.timer.head?, bltIsTimerExpired tick1us now first.t = false) :
    (s.bltSoftTimerProcess tick1us now res).1.timer = s.timer ∧
      (s.bltSoftTimerProcess tick1us now res).2 = [] := by
  unfold bltSoftTimerProcess
  cases hfirst : s.timer.head? with
  | none => exact ⟨rfl, rfl⟩
  | some first =>
    simp only [h first hfirst, Bool.not_false, if_true]
    exact ⟨trivial, trivial⟩

/-- A call that finds the first timer expired walks through the table. -/
theorem process_of_expired {s : BltSoftTimer} {first : TimeEvent}
    (hfirst : s.timer.head? = some first) (h : bltIsTimerExpired tick1us now first.t = true) :
    ((s.bltSoftTimerProcess tick1us now res).1.timer).Perm
        (walk tick1us now res false 0 s.timer).1 ∧
      (s.bltSoftTimerProcess tick1us now res).2 = (walk tick1us now res false 0 s.timer).2 := by
  obtain ⟨htimer, hcalls⟩ := @processTable_eq_walk tick1us now res s.timer
  rw [← htimer, ← hcalls]
  unfold bltSoftTimerProcess
  rw [hfirst]
  simp only [h, Bool.not_true, Bool.false_eq_true, if_false]
  refine ⟨?_, trivial⟩
  split_ifs
  · exact bltSoftTimerSort_perm _
  · exact List.Perm.refl _

/-- **A call runs what is due**, and leaves what it should, exactly when the first timer is expired
or no timer is due, and no timer that is deleted stands right in front of one that is due. -/
theorem law_iff (s : BltSoftTimer) :
    Law tick1us now res s ↔
      ((∀ first ∈ s.timer.head?, bltIsTimerExpired tick1us now first.t = true) ∨
        ∀ e ∈ s.timer, due tick1us now e = false) ∧
      NoNeighbours tick1us now res 0 s.timer := by
  by_cases hexpired : ∃ first ∈ s.timer.head?, bltIsTimerExpired tick1us now first.t = true
  · obtain ⟨first, hfirst, hexp⟩ := hexpired
    obtain ⟨hperm, hcalls⟩ := @process_of_expired tick1us now res _ _ hfirst hexp
    have hall : ∀ first ∈ s.timer.head?, bltIsTimerExpired tick1us now first.t = true := by
      intro first' hfirst'
      rw [Option.mem_unique hfirst' hfirst]
      exact hexp
    rw [and_iff_right (Or.inl hall)]
    have hclear := @clear_iff tick1us now res false 0 s.timer
    rw [and_iff_right (by simp)] at hclear
    rw [← hclear]
    constructor
    · intro law
      by_contra hskips
      have hlen := law.ran.length_eq
      rw [hcalls, List.length_map, ← List.countP_eq_length_filter] at hlen
      exact Nat.ne_of_lt (length_walk_lt hskips) hlen
    · intro hclear
      obtain ⟨hran, hleft⟩ := walk_of_clear hclear
      refine ⟨?_, ?_⟩
      · rw [hcalls, hran]
      · rw [hcalls]
        exact hperm.trans hleft
  · have hnot : ∀ first ∈ s.timer.head?, bltIsTimerExpired tick1us now first.t = false :=
      fun first hfirst => Bool.eq_false_iff.mpr fun hexp => hexpired ⟨first, hfirst, hexp⟩
    obtain ⟨htimer, hcalls⟩ := @process_of_not_expired tick1us now res _ hnot
    constructor
    · intro law
      have hnone : ∀ e ∈ s.timer, due tick1us now e = false := by
        have hran := law.ran
        rw [hcalls, List.map_nil, List.nil_perm, List.filter_eq_nil_iff] at hran
        exact fun e he => Bool.eq_false_iff.mpr (hran e he)
      refine ⟨Or.inr hnone, fun pre a b post hl ha => ?_⟩
      rw [hnone a (by rw [hl]; simp)] at ha
      cases ha
    · rintro ⟨hexp | hnone, -⟩
      · -- then there is no timer at all
        have hnil : s.timer = [] := by
          cases hfirst : s.timer.head? with
          | none => exact List.head?_eq_none_iff.mp hfirst
          | some first =>
            have := hexp first hfirst
            rw [hnot first hfirst] at this
            cases this
        refine ⟨?_, ?_⟩
        · rw [hcalls, hnil]
          exact List.Perm.refl _
        · rw [htimer, hcalls, hnil]
          exact List.Perm.refl _
      · refine ⟨?_, ?_⟩
        · rw [hcalls, List.filter_eq_nil_iff.mpr fun e he => by simp [hnone e he]]
          exact List.Perm.refl _
        · rw [htimer, hcalls, List.filter_eq_self.mpr fun e he => by simp [hnone e he],
            List.filterMap_nil, List.append_nil]

/-- **The timer behind a deleted one is not run**: two timers of a millisecond, the first of which
returns -1. -/
theorem neighbour_not_run :
    ¬∀ (tick1us now : UInt32) (res : ℕ → Int32) (s : BltSoftTimer), Reachable tick1us s →
      Law tick1us now res s := by
  intro hall
  have hreach := ((@Reachable.init 16).add 0x8000 1000 0).add 0x9000 1000 0
  have hran := (hall 16 16000 (fun _ => -1) _ hreach).ran.length_eq
  exact absurd hran (by decide)

end BltSoftTimer

end TcBle.Vendor
