import TcBle.Foundation.LinkedList
import TcBle.Foundation.Run
import TcBle.HciTransport.Common
import Mathlib.Data.Multiset.AddSub
import Mathlib.Order.Interval.Finset.Nat

/-!
# The queue of `tl_queue.c`

A queue of items that link to each other, with a pointer to the first and one to the last. The items
are the caller's, and an item holds nothing of the queue but its `next`.

## The model

An item is its address. The loops over the items, in `queue_enq` when a priority is used, and in
`queue_delete`, go on for at most 2^32 rounds: there are no more addresses, so that one that goes on
would never end. An operation that would not end, or reads through a null pointer, has no result. A
priority may depend on all of the memory, of which an operation is given what it finds.

## What is proved

* `queue_invariant` — in every run the items from head to tail are a chain without a cycle, which
  the pointers and the number of items agree with, and they are the items added and not taken out.
-/

namespace TcBle.Common

open TcBle.Foundation.LinkedList TcBle.Foundation.Run TcBle.HciTransport

/-- A pointer to an item: an address that is not null. -/
abbrev QueueItem := { a : ℕ // 0 < a ∧ a < 2 ^ 32 }

/-- `queue_sts_t`. -/
inductive QueueSts where
  /-- `QUEUE_SUCCESS`. -/
  | success
  /-- `QUEUE_PARAM_INVALID`. -/
  | paramInvalid
  /-- `QUEUE_EMPTY`. -/
  | empty
  /-- `QUEUE_NOT_FOUND`. -/
  | notFound
  deriving DecidableEq

/-- `queue_t`, and the links of the items. -/
structure TlQueue (W : Type*) where
  /-- The first item. -/
  head : Option QueueItem
  /-- The last item. -/
  tail : Option QueueItem
  /-- The priority of an item, if it is used. -/
  priCmpCb : Option (W → QueueItem → ℕ)
  /-- The number of items. -/
  curNum : ℕ
  /-- `next` of each item. -/
  next : QueueItem → Option QueueItem

namespace TlQueue

variable {W : Type*}

/-- As many rounds as there are addresses. -/
def ROUNDS : ℕ := 2 ^ 32

/-- `queue_init`. -/
def queueInit (priFunc : Option (W → QueueItem → ℕ)) (q : TlQueue W) : TlQueue W :=
  { q with head := none, tail := none, priCmpCb := priFunc, curNum := 0 }

/-- `curNum++`. -/
def numUp (q : TlQueue W) : ℕ := (q.curNum + 1) % 2 ^ 32

/-- `curNum--`. -/
def numDown (q : TlQueue W) : ℕ := subU32 q.curNum 1

/-- `queue_enq` into a queue that is empty. -/
def enqFirst (x : QueueItem) (q : TlQueue W) : TlQueue W :=
  { q with
    head := some x
    tail := some x
    next := Function.update q.next x none
    curNum := q.numUp }

/-- `queue_enq` after item `t`, the last one. -/
def enqLast (t x : QueueItem) (q : TlQueue W) : TlQueue W :=
  { q with
    next := Function.update (Function.update q.next t (some x)) x none
    tail := some x
    curNum := q.numUp }

/-- `queue_enq` between `previous` and `current`. -/
def enqBetween (x : QueueItem) (previous current : Option QueueItem) (q : TlQueue W) : TlQueue W :=
  { q with
    head := if previous = none then some x else q.head
    next := Function.update (previous.elim q.next fun p =>
      Function.update q.next p (some x)) x current
    tail := if current = none then some x else q.tail
    curNum := q.numUp }

/-- `queue_enq`. -/
def queueEnq (w : W) (pItem : Option QueueItem) (q : TlQueue W) : Option (TlQueue W × QueueSts) :=
  match pItem with
  | none => some (q, .paramInvalid)
  | some x =>
    if q.head = none then some (q.enqFirst x, .success)
    else
      match q.priCmpCb with
      | none => q.tail.map fun t => (q.enqLast t x, .success)
      | some pri =>
        (walk (fun current => pri w x < pri w current) q.next ROUNDS none q.head).map fun r =>
          (q.enqBetween x r.1 r.2, .success)

/-- `queue_deq`, with the item it returns. -/
def queueDeq (q : TlQueue W) : TlQueue W × Option QueueItem :=
  match q.head with
  | none => (q, none)
  | some x =>
    ({ q with
        head := q.next x
        tail := if q.next x = none then none else q.tail
        curNum := q.numDown }, some x)

/-- `queue_insert` at the head. -/
def insertHead (x : QueueItem) (q : TlQueue W) : TlQueue W :=
  { q with
    next := Function.update q.next x q.head
    tail := if q.head = none then some x else q.tail
    head := some x
    curNum := q.numUp }

/-- `queue_insert` after item `p`. -/
def insertAfter (p x : QueueItem) (q : TlQueue W) : TlQueue W :=
  { q with
    next := Function.update (Function.update q.next x (q.next p)) p (some x)
    curNum := q.numUp }

/-- `queue_insert`. -/
def queueInsert (w : W) (item prev : Option QueueItem) (q : TlQueue W) :
    Option (TlQueue W × QueueSts) :=
  match item with
  | none => some (q, .paramInvalid)
  | some x =>
    if q.head = none ∨ prev = q.tail then (q.queueEnq w item).map fun r => (r.1, .success)
    else
      match prev with
      | none => some (q.insertHead x, .success)
      | some p => some (q.insertAfter p x, .success)

/-- `queue_remove`. -/
def queueRemove (item prev : Option QueueItem) (q : TlQueue W) : TlQueue W × QueueSts :=
  match item with
  | none => (q, .paramInvalid)
  | some x =>
    if q.head = none then (q, .paramInvalid)
    else
      ({ q with
          head := if q.head = some x then q.next x else q.head
          next := if q.head = some x then q.next
            else prev.elim q.next fun p => Function.update q.next p (q.next x)
          tail := if q.tail = some x then prev else q.tail
          curNum := q.numDown }, .success)

/-- `queue_delete` of the first item. -/
def deleteHead (x : QueueItem) (q : TlQueue W) : TlQueue W :=
  { q with head := q.next x, tail := if q.tail = some x then none else q.tail, curNum := q.numDown }

/-- `queue_delete` of the item after `previous`. -/
def deleteAfter (previous x : QueueItem) (q : TlQueue W) : TlQueue W :=
  { q with
    next := Function.update q.next previous (q.next x)
    tail := if q.tail = some x then some previous else q.tail
    curNum := q.numDown }

/-- `queue_delete`. -/
def queueDelete (pItem : Option QueueItem) (q : TlQueue W) : Option (TlQueue W × QueueSts) :=
  match pItem with
  | none => some (q, .paramInvalid)
  | some x =>
    if q.head = none then some (q, .empty)
    else if q.head = some x then some (q.deleteHead x, .success)
    else
      (walk (fun current => current = x) q.next ROUNDS none q.head).bind fun r =>
        if r.2 = some x then r.1.map fun previous => (q.deleteAfter previous x, .success)
        else some (q, .notFound)

end TlQueue

/-! ### Runs -/

/-- What is done with a queue. -/
inductive QueueOp (W : Type*) where
  /-- `queue_init`. -/
  | init (priFunc : Option (W → QueueItem → ℕ))
  /-- `queue_enq`. -/
  | enq (w : W) (pItem : Option QueueItem)
  /-- `queue_deq`. -/
  | deq
  /-- `queue_insert`. -/
  | insert (w : W) (item prev : Option QueueItem)
  /-- `queue_remove`. -/
  | remove (item prev : Option QueueItem)
  /-- `queue_delete`. -/
  | delete (pItem : Option QueueItem)

/-- A queue, and the items added and not taken out. -/
structure QueueRun (W : Type*) where
  /-- The queue. -/
  q : TlQueue W
  /-- The items. -/
  queued : Multiset QueueItem

namespace QueueRun

variable {W : Type*}

/-- An item is added, when the operation succeeds. -/
def added (r : TlQueue W × QueueSts) (item : Option QueueItem) (s : QueueRun W) : QueueRun W :=
  ⟨r.1, if r.2 = .success then s.queued + item.toList else s.queued⟩

/-- An item is taken out, when the operation succeeds. -/
def taken (r : TlQueue W × QueueSts) (item : Option QueueItem) (s : QueueRun W) : QueueRun W :=
  ⟨r.1, if r.2 = .success then s.queued - item.toList else s.queued⟩

/-- A step. -/
def step (s : QueueRun W) : QueueOp W → Option (QueueRun W)
  | .init priFunc => some ⟨s.q.queueInit priFunc, 0⟩
  | .enq w pItem => (s.q.queueEnq w pItem).map fun r => s.added r pItem
  | .deq => some ⟨s.q.queueDeq.1, s.queued - s.q.queueDeq.2.toList⟩
  | .insert w item prev => (s.q.queueInsert w item prev).map fun r => s.added r item
  | .remove item prev => some (s.taken (s.q.queueRemove item prev) item)
  | .delete pItem => (s.q.queueDelete pItem).map fun r => s.taken r pItem

/-- A step of a run that goes on. -/
def next (s : Option (QueueRun W)) (op : QueueOp W) : Option (QueueRun W) :=
    s.bind fun s => s.step op

/-- **How the queue is called**: what is added is not queued, it is inserted after an item that is,
or in front, and what is removed comes after the item that is told, or is the first. -/
def Called (s : QueueRun W) : QueueOp W → Prop
  | .enq _ pItem => ∀ x ∈ pItem, x ∉ s.queued
  | .insert _ item prev => (∀ x ∈ item, x ∉ s.queued) ∧ ∀ p ∈ prev, p ∈ s.queued
  | .remove item (some p) => p ∈ s.queued ∧ s.q.next p = item
  | .remove item none => s.q.head = item
  | .init _ | .deq | .delete _ => True

/-- What is asked of a run that goes on. -/
def CalledNext (s : Option (QueueRun W)) (op : QueueOp W) : Prop := ∀ s' ∈ s, s'.Called op

instance decidableCalled (s : QueueRun W) : ∀ op, Decidable (s.Called op)
  | .enq _ pItem => inferInstanceAs (Decidable (∀ x ∈ pItem, x ∉ s.queued))
  | .insert _ item prev =>
    inferInstanceAs (Decidable ((∀ x ∈ item, x ∉ s.queued) ∧ ∀ p ∈ prev, p ∈ s.queued))
  | .remove item (some p) => inferInstanceAs (Decidable (p ∈ s.queued ∧ s.q.next p = item))
  | .remove item none => inferInstanceAs (Decidable (s.q.head = item))
  | .init _ | .deq | .delete _ => isTrue trivial

instance (s : Option (QueueRun W)) (op : QueueOp W) : Decidable (CalledNext s op) :=
  inferInstanceAs (Decidable (∀ s' ∈ s, s'.Called op))

/-- **The queue is in order**: `l` are its items. -/
structure InOrder (s : QueueRun W) (l : List QueueItem) : Prop where
  /-- From the head on the links go through the items, and end. -/
  chain : Links s.q.next s.q.head l none
  /-- No item comes twice. -/
  acyclic : l.Nodup
  /-- The tail is the last item. -/
  tail : s.q.tail = l.getLast?
  /-- It links to nothing. -/
  last : ∀ t, s.q.tail = some t → s.q.next t = none
  /-- The number of items. -/
  curNum : s.q.curNum = l.length
  /-- There is no head exactly when there is no tail. -/
  null : s.q.head = none ↔ s.q.tail = none
  /-- They are the items added and not taken out. -/
  queued : (l : Multiset QueueItem) = s.queued
  /-- A delete of an item that is queued succeeds. -/
  deleted : ∀ x ∈ s.queued, ∃ q', s.q.queueDelete (some x) = some (q', .success)
  /-- A delete of another item tells an error, and changes nothing. -/
  error : ∀ x ∉ s.queued, s.q.queueDelete (some x) =
    some (s.q, if s.q.head = none then .empty else .notFound)

end QueueRun

/-! ### What each operation leaves -/

namespace TlQueue

variable {W : Type*} {q : TlQueue W} {l : List QueueItem} {x : QueueItem}

/-- **The queue is the list `l`.** -/
structure Holds (q : TlQueue W) (l : List QueueItem) : Prop where
  /-- The links. -/
  chain : Links q.next q.head l none
  /-- The last item. -/
  tail : q.tail = l.getLast?
  /-- The number of items. -/
  curNum : q.curNum = l.length

/-- There are fewer items than addresses. -/
theorem length_lt_of_nodup (h : l.Nodup) : l.length < 2 ^ 32 := by
  have hsub : (l.map Subtype.val).toFinset ⊆ Finset.Ioo 0 (2 ^ 32) := by
    intro a ha
    obtain ⟨y, -, rfl⟩ := List.mem_map.mp (List.mem_toFinset.mp ha)
    exact Finset.mem_Ioo.mpr y.property
  have hcard := Finset.card_le_card hsub
  rw [List.toFinset_card_of_nodup (h.map Subtype.val_injective), List.length_map,
    Nat.card_Ioo] at hcard
  omega

theorem Holds.length_lt (h : q.Holds l) : l.length < 2 ^ 32 := length_lt_of_nodup h.chain.nodup

/-- One item more. -/
theorem Holds.numUp_eq (h : q.Holds l) (hx : x ∉ l) : q.numUp = l.length + 1 := by
  have hlt : (x :: l).length < 2 ^ 32 :=
    length_lt_of_nodup (List.nodup_cons.mpr ⟨hx, h.chain.nodup⟩)
  rw [numUp, h.curNum]
  exact Nat.mod_eq_of_lt hlt

/-- One item less. -/
theorem Holds.numDown_eq (h : q.Holds l) {n : ℕ} (hn : l.length = n + 1) : q.numDown = n := by
  rw [numDown, subU32_of_le (by rw [h.curNum]; omega) (by rw [h.curNum]; exact h.length_lt),
    h.curNum, hn]
  rfl

/-- The last item, when one is put between two lists. -/
theorem getLast?_between (l₁ l₂ : List QueueItem) (x : QueueItem) :
    (l₁ ++ x :: l₂).getLast? = if l₂.head? = none then some x else (l₁ ++ l₂).getLast? := by
  cases l₂ with
  | nil => simp
  | cons y l₂ => simp [List.getLast?_append]

/-- The last item, when one is taken out after item `p`. -/
theorem getLast?_without {l₁ l₂ : List QueueItem} {p x : QueueItem}
    (h : (l₁ ++ p :: x :: l₂).Nodup) :
    (l₁ ++ p :: l₂).getLast? =
      if (l₁ ++ p :: x :: l₂).getLast? = some x then some p else (l₁ ++ p :: x :: l₂).getLast? := by
  cases l₂ using List.reverseRecOn with
  | nil => simp [List.getLast?_append]
  | append_singleton l₂ z =>
    have hne : z ≠ x := by
      rintro rfl
      have hnodup := (List.nodup_cons.mp (List.nodup_append.mp h).2.1).2
      exact (List.nodup_cons.mp hnodup).1 (List.mem_append_right _ (List.mem_singleton_self _))
    rw [show l₁ ++ p :: (l₂ ++ [z]) = (l₁ ++ p :: l₂) ++ [z] by simp,
      show l₁ ++ p :: x :: (l₂ ++ [z]) = (l₁ ++ p :: x :: l₂) ++ [z] by simp, List.getLast?_concat,
        List.getLast?_concat, if_neg fun heq => hne (Option.some.inj heq)]

/-- An item after another is not the first one. -/
theorem head?_ne {l₁ l₂ : List QueueItem} {p x : QueueItem} (h : (l₁ ++ p :: l₂).Nodup)
    (hx : x ∈ l₂) :
    (l₁ ++ p :: l₂).head? ≠ some x := by
  intro hhead
  cases l₁ with
  | nil =>
    obtain rfl := Option.some.inj hhead
    exact (List.nodup_cons.mp h).1 hx
  | cons y l₁ =>
    obtain rfl := Option.some.inj hhead
    exact (List.nodup_cons.mp h).1 (List.mem_append_right _ (List.mem_cons_of_mem _ hx))

theorem holds_init (priFunc : Option (W → QueueItem → ℕ)) (q : TlQueue W) :
    (q.queueInit priFunc).Holds [] :=
  ⟨rfl, rfl, rfl⟩

theorem Holds.head_eq_none_iff (h : q.Holds l) : q.head = none ↔ l = [] := by
  rw [h.chain.head, List.head?_eq_none_iff]

theorem Holds.enqFirst (h : q.Holds []) (x : QueueItem) : (q.enqFirst x).Holds [x] :=
  ⟨⟨rfl, Function.update_self _ _ _⟩, rfl, h.numUp_eq (x := x) List.not_mem_nil⟩

theorem Holds.enqLast {t : QueueItem} (h : q.Holds (l ++ [t])) (hx : x ∉ l ++ [t]) :
    (q.enqLast t x).Holds (l ++ [t, x]) := by
  refine ⟨h.chain.concat hx, ?_, ?_⟩
  · simp [TlQueue.enqLast]
  · rw [TlQueue.enqLast, h.numUp_eq hx]
    simp

/-- An item between two parts of the queue. -/
theorem Holds.enqBetween {l₁ l₂ : List QueueItem} (h : q.Holds (l₁ ++ l₂)) (hx : x ∉ l₁ ++ l₂) :
    (q.enqBetween x l₁.getLast? l₂.head?).Holds (l₁ ++ x :: l₂) := by
  have hchain := h.chain
  refine ⟨?_, ?_, ?_⟩
  · cases l₁ using List.reverseRecOn with
    | nil =>
      have hcons := hchain.cons hx
      rw [hchain.head] at hcons
      exact hcons
    | append_singleton l₁ a =>
      rw [List.append_assoc, List.singleton_append] at hchain hx
      have hne : x ≠ a := fun heq => hx (List.mem_append_right _ (heq ▸ List.mem_cons_self))
      have hinsert := hchain.insert hx
      rw [hchain.next_eq, Function.update_comm hne] at hinsert
      simpa [TlQueue.enqBetween] using hinsert
  · rw [getLast?_between, TlQueue.enqBetween, h.tail]
  · rw [TlQueue.enqBetween, h.numUp_eq hx]
    simp
    omega

/-- The item `x` that is added has a higher priority than item `y`. -/
def Precedes (q : TlQueue W) (w : W) (x y : QueueItem) : Prop :=
  ∃ pri ∈ q.priCmpCb, pri w x < pri w y

/-- **What an enqueue does**: the item is put before the first one that it precedes. -/
theorem Holds.enq (h : q.Holds l) (hx : x ∉ l) (w : W) :
    ∃ q' l₁ l₂, q.queueEnq w (some x) = some (q', .success) ∧ l = l₁ ++ l₂ ∧
      q'.Holds (l₁ ++ x :: l₂) ∧ q'.priCmpCb = q.priCmpCb ∧
        (∀ y ∈ l₁, ¬ q.Precedes w x y) ∧ ∀ y ∈ l₂.head?, q.Precedes w x y := by
  rw [queueEnq]
  split_ifs with hhead
  · obtain rfl := h.head_eq_none_iff.mp hhead
    exact ⟨_, [], [], rfl, rfl, h.enqFirst x, rfl, fun y hy => absurd hy List.not_mem_nil,
      fun y hy => absurd hy (Option.not_mem_none y)⟩
  · cases hpri : q.priCmpCb with
    | none =>
      cases l using List.reverseRecOn with
      | nil => exact absurd (h.head_eq_none_iff.mpr rfl) hhead
      | append_singleton l t =>
        have htail : q.tail = some t := by rw [h.tail, List.getLast?_concat]
        refine ⟨q.enqLast t x, l ++ [t], [], by rw [htail]; rfl, (List.append_nil _).symm, ?_,
          hpri, ?_, fun y hy => absurd hy (Option.not_mem_none y)⟩
        · rw [List.append_assoc]
          exact h.enqLast hx
        · rintro y - ⟨pri, hmem, -⟩
          rw [hpri] at hmem
          exact absurd hmem (Option.not_mem_none pri)
    | some pri =>
      obtain ⟨l₁, l₂, rfl, hwalk, hpassed, hstops⟩ :=
        walk_of_links (fun current => pri w x < pri w current) h.chain h.length_lt none
      simp only [ROUNDS, hwalk, Option.or_none]
      refine ⟨_, l₁, l₂, rfl, rfl, h.enqBetween hx, hpri, ?_, fun y hy => ⟨pri, hpri, hstops y hy⟩⟩
      rintro y hy ⟨f, hf, hlt⟩
      obtain rfl : pri = f := Option.some.inj (hpri.symm.trans hf)
      exact hpassed y hy hlt

/-- **What a dequeue does**: the first item is taken out. -/
theorem Holds.deq (h : q.Holds (x :: l)) : q.queueDeq.2 = some x ∧ q.queueDeq.1.Holds l := by
  have hchain := h.chain.tail
  rw [queueDeq, h.chain.1]
  refine ⟨rfl, hchain, ?_, h.numDown_eq rfl⟩
  simp only
  split_ifs with hnext
  · rw [hnext] at hchain
    exact hchain.head_eq_none_iff.mp rfl |>.symm
  · rw [h.tail]
    cases l with
    | nil => exact absurd hchain hnext
    | cons y l => rfl

theorem Holds.deq_nil (h : q.Holds []) : q.queueDeq = (q, none) := by
  rw [queueDeq, links_nil.mp h.chain]

theorem Holds.insertAfter {l₁ l₂ : List QueueItem} {p : QueueItem} (h : q.Holds (l₁ ++ p :: l₂))
    (hx : x ∉ l₁ ++ p :: l₂)
    (hl₂ : l₂ ≠ []) : (q.insertAfter p x).Holds (l₁ ++ p :: x :: l₂) := by
  refine ⟨h.chain.insert hx, ?_, ?_⟩
  · rw [TlQueue.insertAfter, h.tail]
    cases l₂ with
    | nil => exact absurd rfl hl₂
    | cons y l₂ => simp [List.getLast?_append]
  · rw [TlQueue.insertAfter, h.numUp_eq hx]
    simp
    omega

theorem Holds.insertHead (h : q.Holds l) (hx : x ∉ l) (hl : l ≠ []) :
    (q.insertHead x).Holds (x :: l) := by
  refine ⟨h.chain.cons hx, ?_, h.numUp_eq hx⟩
  rw [TlQueue.insertHead, h.tail]
  simp only [if_neg (mt h.head_eq_none_iff.mp hl)]
  cases l with
  | nil => exact absurd rfl hl
  | cons y l => rfl

/-- **What an insert does**: the item is put somewhere. -/
theorem Holds.insert (h : q.Holds l) (hx : x ∉ l) (w : W) {prev : Option QueueItem}
    (hprev : ∀ p ∈ prev, p ∈ l) :
    ∃ q' l₁ l₂, q.queueInsert w (some x) prev = some (q', .success) ∧ l = l₁ ++ l₂ ∧
      q'.Holds (l₁ ++ x :: l₂) := by
  unfold queueInsert
  simp only
  split_ifs with hcase
  · obtain ⟨q', l₁, l₂, henq, hl, hq', -⟩ := h.enq hx w
    exact ⟨q', l₁, l₂, by rw [henq]; rfl, hl, hq'⟩
  · rw [not_or] at hcase
    have hl : l ≠ [] := mt h.head_eq_none_iff.mpr hcase.1
    cases prev with
    | none => exact ⟨_, [], l, rfl, rfl, h.insertHead hx hl⟩
    | some p =>
      obtain ⟨l₁, l₂, rfl⟩ := List.append_of_mem (hprev p rfl)
      have hl₂ : l₂ ≠ [] := fun hnil => hcase.2 (by rw [h.tail, hnil, List.getLast?_concat])
      refine ⟨_, l₁ ++ [p], l₂, rfl, by simp, ?_⟩
      rw [List.append_assoc]
      exact h.insertAfter hx hl₂

/-- The first item is taken out. -/
theorem Holds.deleteHead (h : q.Holds (x :: l)) : (q.deleteHead x).Holds l := by
  have hchain := h.chain.tail
  refine ⟨hchain, ?_, h.numDown_eq rfl⟩
  rw [TlQueue.deleteHead, h.tail]
  cases l using List.reverseRecOn with
  | nil => exact if_pos rfl
  | append_singleton l z =>
    have hne : z ≠ x := by
      rintro rfl
      exact (List.nodup_cons.mp h.chain.nodup).1
        (List.mem_append_right _ (List.mem_singleton_self _))
    have hlast : (x :: (l ++ [z])).getLast? = some z := by
      rw [← List.cons_append, List.getLast?_concat]
    simp only [hlast, List.getLast?_concat]
    exact if_neg fun heq => hne (Option.some.inj heq)

/-- An item after another is taken out. -/
theorem Holds.deleteAfter {l₁ l₂ : List QueueItem} {p : QueueItem}
    (h : q.Holds (l₁ ++ p :: x :: l₂)) :
    (q.deleteAfter p x).Holds (l₁ ++ p :: l₂) := by
  refine ⟨h.chain.unlink, ?_, h.numDown_eq (by simp; omega)⟩
  rw [TlQueue.deleteAfter, h.tail]
  exact (getLast?_without h.chain.nodup).symm

/-- Removing the first item is deleting it. -/
theorem Holds.remove_head (h : q.Holds (x :: l)) :
    q.queueRemove (some x) none = (q.deleteHead x, .success) := by
  have hhead : q.head = some x := h.chain.1
  rw [queueRemove, if_neg (by rw [hhead]; nofun), TlQueue.deleteHead]
  simp only [hhead, if_true]

/-- Removing an item after another is deleting it. -/
theorem Holds.remove_after {l₁ l₂ : List QueueItem} {p : QueueItem}
    (h : q.Holds (l₁ ++ p :: x :: l₂)) :
    q.queueRemove (some x) (some p) = (q.deleteAfter p x, .success) := by
  have hhead : q.head ≠ some x := by
    rw [h.chain.head]
    exact head?_ne h.chain.nodup List.mem_cons_self
  have hne : q.head ≠ none := fun hnone => by simpa using h.head_eq_none_iff.mp hnone
  rw [queueRemove, if_neg hne, TlQueue.deleteAfter]
  simp only [hhead, if_false, Option.elim_some]

/-- **What a delete does**: the item is taken out. -/
theorem Holds.delete (h : q.Holds l) (hx : x ∈ l) :
    ∃ q' l₁ l₂, q.queueDelete (some x) = some (q', .success) ∧ l = l₁ ++ x :: l₂ ∧
      q'.Holds (l₁ ++ l₂) ∧ q'.priCmpCb = q.priCmpCb := by
  have hne : q.head ≠ none := by
    intro hnone
    rw [h.head_eq_none_iff.mp hnone] at hx
    exact absurd hx List.not_mem_nil
  rw [queueDelete, if_neg hne]
  split_ifs with hhead
  · cases l with
    | nil => exact absurd hx List.not_mem_nil
    | cons y l =>
      obtain rfl : y = x := Option.some.inj (h.chain.1.symm.trans hhead)
      exact ⟨_, [], l, rfl, rfl, h.deleteHead, rfl⟩
  · obtain ⟨l₁, l₂, rfl, hwalk, hpassed, hstops⟩ :=
      walk_of_links (fun current => current = x) h.chain h.length_lt none
    have hx₂ : x ∈ l₂ := (List.mem_append.mp hx).resolve_left fun hx₁ => hpassed x hx₁ rfl
    cases l₂ with
    | nil => exact absurd hx₂ List.not_mem_nil
    | cons y l₂ =>
      obtain rfl : y = x := hstops y rfl
      cases l₁ using List.reverseRecOn with
      | nil => exact absurd h.chain.1 hhead
      | append_singleton l₁ p =>
        rw [List.append_assoc, List.singleton_append] at h
        refine ⟨q.deleteAfter p y, l₁ ++ [p], l₂, ?_, rfl, ?_, rfl⟩
        · simp only [ROUNDS, hwalk, List.getLast?_concat, Option.some_or, List.head?_cons,
            Option.bind_some, if_true, Option.map_some]
        · rw [List.append_assoc]
          exact h.deleteAfter

/-- **A delete of an item that is not in the queue** changes nothing. -/
theorem Holds.delete_of_notMem (h : q.Holds l) (hx : x ∉ l) :
    q.queueDelete (some x) = some (q, if q.head = none then .empty else .notFound) := by
  rw [queueDelete]
  by_cases hne : q.head = none
  · rw [if_pos hne, if_pos hne]
  · have hhead : q.head ≠ some x := fun heq => hx (List.mem_of_mem_head? (h.chain.head ▸ heq))
    obtain ⟨l₁, l₂, rfl, hwalk, -, hstops⟩ :=
      walk_of_links (fun current => current = x) h.chain h.length_lt none
    have hend : l₂.head? ≠ some x :=
      fun heq => hx (List.mem_append_right _ (List.mem_of_mem_head? heq))
    rw [if_neg hne, if_neg hne, if_neg hhead]
    simp only [ROUNDS, hwalk, Option.bind_some, hend, if_false]

end TlQueue

/-! ### Runs of a queue -/

namespace QueueRun

variable {W : Type*} {s : QueueRun W} {l l₁ l₂ : List QueueItem} {x : QueueItem}

/-- One item more. -/
theorem coe_between (l₁ l₂ : List QueueItem) (x : QueueItem) :
    ((l₁ ++ x :: l₂ : List QueueItem) : Multiset QueueItem) = ↑(l₁ ++ l₂) + ↑(some x).toList := by
  rw [Multiset.coe_add]
  exact Multiset.coe_eq_coe.mpr (List.perm_middle.trans (List.perm_append_singleton x _).symm)

/-- One item less. -/
theorem coe_without (l₁ l₂ : List QueueItem) (x : QueueItem) :
    ((l₁ ++ x :: l₂ : List QueueItem) : Multiset QueueItem) - ↑(some x).toList = ↑(l₁ ++ l₂) := by
  rw [coe_between, add_tsub_cancel_right]

/-- The queue is a list of the items added and not taken out. -/
structure Holds (s : QueueRun W) (l : List QueueItem) : Prop where
  /-- The queue. -/
  q : s.q.Holds l
  /-- The items. -/
  queued : (l : Multiset QueueItem) = s.queued

theorem Holds.mem_iff (h : s.Holds l) : x ∈ s.queued ↔ x ∈ l := by
  rw [← h.queued, Multiset.mem_coe]

/-- An operation that puts an item somewhere. -/
theorem Holds.added (h : s.Holds (l₁ ++ l₂)) {q' : TlQueue W} (hq' : q'.Holds (l₁ ++ x :: l₂)) :
    (s.added (q', .success) (some x)).Holds (l₁ ++ x :: l₂) := by
  refine ⟨hq', ?_⟩
  rw [coe_between, h.queued]
  rfl

/-- An operation that takes an item out. -/
theorem Holds.taken (h : s.Holds (l₁ ++ x :: l₂)) {q' : TlQueue W} (hq' : q'.Holds (l₁ ++ l₂)) :
    (s.taken (q', .success) (some x)).Holds (l₁ ++ l₂) := by
  refine ⟨hq', ?_⟩
  rw [← coe_without l₁ l₂ x, h.queued]
  rfl

theorem Holds.inOrder (h : s.Holds l) : s.InOrder l where
  chain := h.q.chain
  acyclic := h.q.chain.nodup
  tail := h.q.tail
  last _ ht := h.q.chain.getLast (h.q.tail ▸ ht)
  curNum := h.q.curNum
  null := by rw [h.q.tail, h.q.chain.head_eq_none_iff]
  queued := h.queued
  deleted x hx := by
    obtain ⟨q', l₁, l₂, hdelete, -, -⟩ := h.q.delete (h.mem_iff.mp hx)
    exact ⟨q', hdelete⟩
  error x hx := h.q.delete_of_notMem (mt h.mem_iff.mpr hx)

/-- A remove takes out the first item, or the one after the item that is told. -/
theorem Holds.remove (h : s.Holds l) {prev : Option QueueItem}
    (hcalled : s.Called (.remove (some x) prev)) :
    ∃ l', (s.taken (s.q.queueRemove (some x) prev) (some x)).Holds l' := by
  cases prev with
  | none =>
    have hhead := h.q.chain.head
    rw [show s.q.head = some x from hcalled] at hhead
    obtain ⟨l, rfl⟩ := List.head?_eq_some_iff.mp hhead.symm
    rw [h.q.remove_head]
    have hwithout : s.Holds ([] ++ x :: l) := h
    exact ⟨l, hwithout.taken h.q.deleteHead⟩
  | some p =>
    obtain ⟨hp, hnext⟩ := hcalled
    obtain ⟨l₁, l₂, rfl⟩ := List.append_of_mem (h.mem_iff.mp hp)
    rw [h.q.chain.next_eq] at hnext
    obtain ⟨l₂, rfl⟩ := List.head?_eq_some_iff.mp hnext
    rw [h.q.remove_after]
    have hq' := h.q.deleteAfter
    rw [List.append_cons] at h hq'
    exact ⟨l₁ ++ [p] ++ l₂, h.taken hq'⟩

/-- A delete takes out the item, or tells an error. -/
theorem Holds.delete (h : s.Holds l) (x : QueueItem) :
    ∃ r l', s.q.queueDelete (some x) = some r ∧ (s.taken r (some x)).Holds l' := by
  by_cases hx : x ∈ l
  · obtain ⟨q', l₁, l₂, hdelete, rfl, hq', -⟩ := h.q.delete hx
    exact ⟨_, l₁ ++ l₂, hdelete, h.taken hq'⟩
  · have herror : (if s.q.head = none then QueueSts.empty else .notFound) ≠ .success := by
      split_ifs
      · nofun
      · nofun
    exact ⟨_, l, h.q.delete_of_notMem hx, h.q, h.queued.trans (if_neg herror).symm⟩

/-- **The step lemma**: an operation that is called so ends, and the queue is a list again. -/
theorem Holds.step (h : s.Holds l) {op : QueueOp W} (hcalled : s.Called op) :
    ∃ s' l', s.step op = some s' ∧ s'.Holds l' := by
  cases op with
  | init priFunc => exact ⟨_, [], rfl, TlQueue.holds_init priFunc s.q, rfl⟩
  | enq w pItem =>
    cases pItem with
    | none => exact ⟨_, l, rfl, h⟩
    | some x =>
      obtain ⟨q', l₁, l₂, henq, rfl, hq', -⟩ := h.q.enq (mt h.mem_iff.mpr (hcalled x rfl)) w
      exact ⟨_, l₁ ++ x :: l₂, by rw [QueueRun.step, henq]; rfl, h.added hq'⟩
  | deq =>
    cases l with
    | nil =>
      refine ⟨_, [], rfl, ?_⟩
      rw [h.q.deq_nil]
      exact ⟨h.q, h.queued.trans (tsub_zero _).symm⟩
    | cons x l =>
      obtain ⟨hx, hq'⟩ := h.q.deq
      refine ⟨_, l, rfl, hq', ?_⟩
      rw [hx, ← h.queued]
      exact (coe_without [] l x).symm
  | insert w item prev =>
    cases item with
    | none => exact ⟨_, l, rfl, h⟩
    | some x =>
      obtain ⟨hx, hprev⟩ := hcalled
      obtain ⟨q', l₁, l₂, hinsert, rfl, hq'⟩ :=
        h.q.insert (mt h.mem_iff.mpr (hx x rfl)) w fun p hp => h.mem_iff.mp (hprev p hp)
      exact ⟨_, l₁ ++ x :: l₂, by rw [QueueRun.step, hinsert]; rfl, h.added hq'⟩
  | remove item prev =>
    cases item with
    | none => exact ⟨_, l, rfl, h⟩
    | some x =>
      obtain ⟨l', hl'⟩ := h.remove hcalled
      exact ⟨_, l', rfl, hl'⟩
  | delete pItem =>
    cases pItem with
    | none => exact ⟨_, l, rfl, h⟩
    | some x =>
      obtain ⟨r, l', hdelete, hl'⟩ := h.delete x
      exact ⟨_, l', by rw [QueueRun.step, hdelete]; rfl, hl'⟩

/-- **The queue is in order** after every run, and every operation of it has ended. -/
theorem queue_invariant (q : TlQueue W) (priFunc : Option (W → QueueItem → ℕ))
    (run : List (QueueOp W))
    (hcalled : Along next CalledNext (some ⟨q.queueInit priFunc, 0⟩) run) :
    ∃ s l, run.foldl next (some ⟨q.queueInit priFunc, 0⟩) = some s ∧ s.InOrder l := by
  have hrun : ∃ s l, run.foldl next (some ⟨q.queueInit priFunc, 0⟩) = some s ∧ s.Holds l := by
    refine Along.induction (P := fun _ o => ∃ s l, o = some s ∧ s.Holds l)
      ⟨_, [], rfl, TlQueue.holds_init priFunc q, rfl⟩ (fun _ op ih hop => ?_) hcalled
    obtain ⟨s, l, hs, hholds⟩ := ih
    rw [hs] at hop ⊢
    exact hholds.step (hop s rfl)
  obtain ⟨s, l, hs, hholds⟩ := hrun
  exact ⟨s, l, hs, hholds.inOrder⟩

/-- A queue by priority: the second item goes before the first, a third is inserted between them, the
last of the three is removed, a fourth goes to the end, the first is dequeued, and the third deleted,
and deleted again. -/
theorem deletedTwice_inOrder :
    let a : QueueItem := ⟨0x100, by decide⟩
    let b : QueueItem := ⟨0x200, by decide⟩
    let c : QueueItem := ⟨0x300, by decide⟩
    let d : QueueItem := ⟨0x400, by decide⟩
    ∃ s l, [QueueOp.enq () (some b), .enq () (some a), .insert () (some c) (some a),
      .remove (some b) (some c), .enq () (some d), .deq, .delete (some c), .delete (some c)].foldl next
      (some ⟨TlQueue.queueInit (some fun _ x => x.1) ⟨none, none, none, 0, fun _ => none⟩, 0⟩) =
        some s ∧ s.InOrder l := by
  intro a b c d
  exact queue_invariant ⟨none, none, none, 0, fun _ => none⟩ (some fun _ x => x.1) _
    (by decide +kernel)

end QueueRun

end TcBle.Common
