import TcBle.Common.TlQueue
import TcBle.Foundation.StableOrder

/-!
# The queue of `tl_queue.c` as a priority queue

A run keeps, beside the queue, the items that are in it with the priorities that they had when
they were added, in the order in which they were added (`PriRun`). The smallest value is served
first; without a priority function every item has the value 0.

## What is proved

* `serves_run` — after every run the next dequeue returns, of the items with the smallest value,
  the one that was added first, and without a priority function the one that was added first.
-/

namespace TcBle.Common

open TcBle.Foundation.Priority TcBle.Foundation.Run

/-! ### Runs -/

/-- What is done with a queue once it is initialised. -/
inductive PriOp (W : Type*) where
  /-- `queue_enq`. -/
  | enq (w : W) (pItem : Option QueueItem)
  /-- `queue_deq`. -/
  | deq
  /-- `queue_delete`. -/
  | delete (pItem : Option QueueItem)
  /-- `queue_remove`. -/
  | remove (item prev : Option QueueItem)

/-- A queue, and the items in it with their priorities, in the order in which they were added. -/
structure PriRun (W : Type*) where
  /-- The queue. -/
  q : TlQueue W
  /-- The items. -/
  present : List (QueueItem × ℕ)

/-- The priority of an item. -/
def TlQueue.priority {W : Type*} (q : TlQueue W) (w : W) (x : QueueItem) : ℕ :=
  q.priCmpCb.elim 0 fun pri => pri w x

/-- The items but for `x`. -/
def without (x : QueueItem) (present : List (QueueItem × ℕ)) : List (QueueItem × ℕ) :=
  present.filter fun e => e.1 ≠ x

namespace PriRun

variable {W : Type*}

/-- An item is taken out, when the operation succeeds. -/
def taken (r : TlQueue W × QueueSts) (item : Option QueueItem) (s : PriRun W) : PriRun W :=
  ⟨r.1, if r.2 = .success then item.elim s.present fun x => without x s.present else s.present⟩

/-- A step. -/
def step (s : PriRun W) : PriOp W → Option (PriRun W)
  | .enq w pItem => (s.q.queueEnq w pItem).map fun r =>
    ⟨r.1, s.present ++ pItem.toList.map fun x => (x, s.q.priority w x)⟩
  | .deq => some ⟨s.q.queueDeq.1, s.q.queueDeq.2.elim s.present fun x => without x s.present⟩
  | .delete pItem => (s.q.queueDelete pItem).map fun r => s.taken r pItem
  | .remove item prev => some (s.taken (s.q.queueRemove item prev) item)

/-- A step of a run that goes on. -/
def next (s : Option (PriRun W)) (op : PriOp W) : Option (PriRun W) := s.bind fun s => s.step op

/-- The items. -/
def items (s : PriRun W) : List QueueItem := s.present.map Prod.fst

/-- **How the queue is called**: what is added is not queued, the priorities of the items that are
have not changed, and what is removed comes after the item that is told, or is the first. -/
def Called (s : PriRun W) : PriOp W → Prop
  | .enq w pItem => (∀ x ∈ pItem, x ∉ s.items) ∧ ∀ e ∈ s.present, s.q.priority w e.1 = e.2
  | .remove item (some p) => p ∈ s.items ∧ s.q.next p = item
  | .remove item none => s.q.head = item
  | .deq | .delete _ => True

/-- What is asked of a run that goes on. -/
def CalledNext (s : Option (PriRun W)) (op : PriOp W) : Prop := ∀ s' ∈ s, s'.Called op

/-- **The next dequeue is right**: it returns, of the items with the smallest value, the one that
was added first. -/
def Serves (s : PriRun W) : Prop :=
  match s.q.queueDeq.2 with
  | none => s.present = []
  | some x => ∃ p, Served Prod.snd s.present (x, p)

end PriRun

/-! ### The order -/

namespace PriRun

variable {W : Type*} {s : PriRun W} {priFunc : Option (W → QueueItem → ℕ)}

/-- The queue is a list of the items in order of their priorities. -/
structure Holds (priFunc : Option (W → QueueItem → ℕ)) (s : PriRun W)
    (sorted : List (QueueItem × ℕ)) : Prop where
  /-- The queue. -/
  q : s.q.Holds (sorted.map Prod.fst)
  /-- The order. -/
  order : StableOrder Prod.snd sorted s.present
  /-- The priority function. -/
  priCmpCb : s.q.priCmpCb = priFunc
  /-- Without one every item has the value 0. -/
  zero : priFunc = none → ∀ e ∈ s.present, e.2 = 0

variable {sorted s₁ s₂ : List (QueueItem × ℕ)} {e : QueueItem × ℕ}

theorem Holds.mem_items (h : Holds priFunc s sorted) {x : QueueItem} :
    x ∈ s.items ↔ x ∈ sorted.map Prod.fst := by
  simp only [items, List.mem_map, h.order.mem_iff]

/-- An item taken out of a list without repetitions. -/
theorem without_middle (h : ((s₁ ++ e :: s₂).map Prod.fst).Nodup) :
    without e.1 (s₁ ++ e :: s₂) = s₁ ++ s₂ := by
  rw [List.map_append, List.map_cons, List.nodup_middle, List.nodup_cons, ← List.map_append] at h
  have hkeep : without e.1 (s₁ ++ s₂) = s₁ ++ s₂ := by
    refine List.filter_eq_self.mpr fun d hd => ?_
    rw [decide_eq_true_eq]
    exact fun heq => h.1 (heq ▸ List.mem_map_of_mem hd)
  rw [without, List.filter_append, List.filter_cons_of_neg (by simp), ← List.filter_append]
  exact hkeep

/-- An operation that takes an item out. -/
theorem Holds.without (h : Holds priFunc s (s₁ ++ e :: s₂)) {q' : TlQueue W}
    (hq' : q'.Holds ((s₁ ++ s₂).map Prod.fst)) (hpri : q'.priCmpCb = s.q.priCmpCb) :
    Holds priFunc ⟨q', Common.without e.1 s.present⟩ (s₁ ++ s₂) := by
  have horder := h.order.filter fun d => d.1 ≠ e.1
  rw [show (s₁ ++ e :: s₂).filter (fun d => d.1 ≠ e.1) = s₁ ++ s₂ from
    without_middle h.q.chain.nodup] at horder
  exact ⟨hq', horder, hpri.trans h.priCmpCb,
    fun hnone d hd => h.zero hnone d (List.mem_of_mem_filter hd)⟩

/-- An enqueue puts the item in its place. -/
theorem Holds.enq (h : Holds priFunc s sorted) {w : W} {x : QueueItem}
    (hcalled : s.Called (.enq w (some x))) :
    ∃ s' sorted', s.step (.enq w (some x)) = some s' ∧ Holds priFunc s' sorted' := by
  obtain ⟨hnew, hfixed⟩ := hcalled
  obtain ⟨q', l₁, l₂, henq, hsplit, hq', hpri, hpassed, hstops⟩ :=
    h.q.enq (mt h.mem_items.mpr (hnew x rfl)) w
  obtain ⟨s₁, s₂, rfl, rfl, rfl⟩ := List.map_eq_append_iff.mp hsplit
  have hprecedes : ∀ d ∈ s₁ ++ s₂,
      s.q.Precedes w x d.1 ↔ s.q.priority w x < d.2 := by
    intro d hd
    have hd' := h.order.mem_iff.mp hd
    rw [← hfixed d hd']
    unfold TlQueue.Precedes TlQueue.priority
    cases hpri : s.q.priCmpCb with
    | none => simp
    | some pri => simp
  refine ⟨⟨q', s.present ++ [(x, s.q.priority w x)]⟩, s₁ ++ (x, s.q.priority w x) :: s₂, ?_, ?_, ?_,
    ?_, ?_⟩
  · rw [step, henq]
    rfl
  · rw [List.map_append]
    exact hq'
  · refine h.order.insert (fun d hd => ?_) fun d hd => ?_
    · have hnot := hpassed d.1 (List.mem_map_of_mem hd)
      rw [hprecedes d (List.mem_append_left _ hd)] at hnot
      exact not_lt.mp hnot
    · refine (hprecedes d (List.mem_append_right _ (List.mem_of_mem_head? hd))).mp (hstops d.1 ?_)
      rw [List.head?_map]
      exact Option.mem_map_of_mem _ hd
  · exact hpri.trans h.priCmpCb
  · intro hnone d hd
    cases List.mem_append.mp hd with
    | inl hd =>
      exact h.zero hnone d hd
    | inr hd =>
      obtain rfl := List.mem_singleton.mp hd
      simp [TlQueue.priority, h.priCmpCb, hnone]

theorem queueDeq_priCmpCb (q : TlQueue W) : q.queueDeq.1.priCmpCb = q.priCmpCb := by
  unfold TlQueue.queueDeq
  split <;> rfl

/-- A dequeue takes the first item out. -/
theorem Holds.deq (h : Holds priFunc s sorted) :
    ∃ s' sorted', s.step .deq = some s' ∧ Holds priFunc s' sorted' := by
  cases sorted with
  | nil =>
    refine ⟨_, [], rfl, ?_⟩
    rw [h.q.deq_nil]
    exact ⟨h.q, h.order, h.priCmpCb, h.zero⟩
  | cons e sorted =>
    obtain ⟨hx, hq'⟩ := h.q.deq
    refine ⟨_, sorted, rfl, ?_⟩
    rw [hx]
    have hmiddle : Holds priFunc s ([] ++ e :: sorted) := h
    exact hmiddle.without hq' (queueDeq_priCmpCb s.q)

/-- A delete takes the item out, if it is queued. -/
theorem Holds.delete (h : Holds priFunc s sorted) (x : QueueItem) :
    ∃ s' sorted', s.step (.delete (some x)) = some s' ∧ Holds priFunc s' sorted' := by
  by_cases hx : x ∈ sorted.map Prod.fst
  · obtain ⟨q', l₁, l₂, hdelete, hsplit, hq', hpri⟩ := h.q.delete hx
    obtain ⟨s₁, r, rfl, rfl, hr⟩ := List.map_eq_append_iff.mp hsplit
    obtain ⟨e, s₂, rfl, rfl, rfl⟩ := List.map_eq_cons_iff.mp hr
    rw [← List.map_append] at hq'
    refine ⟨_, s₁ ++ s₂, by rw [step, hdelete]; rfl, ?_⟩
    exact h.without hq' hpri
  · have hdelete := h.q.delete_of_notMem hx
    have herror : (if s.q.head = none then QueueSts.empty else .notFound) ≠ .success := by
      split_ifs
      · nofun
      · nofun
    refine ⟨s, sorted, ?_, h⟩
    rw [step, hdelete, Option.map_some, taken, if_neg herror]

/-- A remove takes out the first item, or the one after the item that is told. -/
theorem Holds.remove (h : Holds priFunc s sorted) {x : QueueItem} {prev : Option QueueItem}
    (hcalled : s.Called (.remove (some x) prev)) :
    ∃ s' sorted', s.step (.remove (some x) prev) = some s' ∧ Holds priFunc s' sorted' := by
  cases prev with
  | none =>
    have hhead := h.q.chain.head
    rw [show s.q.head = some x from hcalled] at hhead
    obtain ⟨l, hl⟩ := List.head?_eq_some_iff.mp hhead.symm
    obtain ⟨e, sorted, rfl, rfl, -⟩ := List.map_eq_cons_iff.mp hl
    have hremove : s.q.queueRemove (some e.1) none = (s.q.deleteHead e.1, .success) :=
      h.q.remove_head
    have hmiddle : Holds priFunc s ([] ++ e :: sorted) := h
    refine ⟨_, sorted, rfl, ?_⟩
    rw [taken, hremove]
    exact hmiddle.without h.q.deleteHead rfl
  | some p =>
    obtain ⟨hp, hnext⟩ := hcalled
    obtain ⟨l₁, l₂, hsplit⟩ := List.append_of_mem (h.mem_items.mp hp)
    have hq := h.q
    rw [hsplit] at hq
    rw [hq.chain.next_eq] at hnext
    obtain ⟨l₂, rfl⟩ := List.head?_eq_some_iff.mp hnext
    obtain ⟨s₁, r, rfl, rfl, hr⟩ := List.map_eq_append_iff.mp hsplit
    obtain ⟨d, r, rfl, rfl, hr₂⟩ := List.map_eq_cons_iff.mp hr
    obtain ⟨e, s₂, rfl, rfl, rfl⟩ := List.map_eq_cons_iff.mp hr₂
    have hq' := hq.deleteAfter
    have hmiddle : Holds priFunc s ((s₁ ++ [d]) ++ e :: s₂) := by
      rw [List.append_assoc]
      exact h
    refine ⟨_, (s₁ ++ [d]) ++ s₂, rfl, ?_⟩
    rw [taken, hq.remove_after]
    refine hmiddle.without ?_ rfl
    rw [List.append_assoc, List.map_append]
    exact hq'

/-- **The step lemma**: an operation that is called so ends, and the queue is in order again. -/
theorem Holds.step (h : Holds priFunc s sorted) {op : PriOp W} (hcalled : s.Called op) :
    ∃ s' sorted', s.step op = some s' ∧ Holds priFunc s' sorted' := by
  cases op with
  | enq w pItem =>
    cases pItem with
    | none =>
      refine ⟨_, sorted, rfl, h.q, ?_, h.priCmpCb, ?_⟩
      · simpa using h.order
      · simpa using h.zero
    | some x => exact h.enq hcalled
  | deq => exact h.deq
  | delete pItem =>
    cases pItem with
    | none => exact ⟨_, sorted, rfl, h.q, h.order, h.priCmpCb, h.zero⟩
    | some x => exact h.delete x
  | remove item prev =>
    cases item with
    | none => exact ⟨_, sorted, rfl, h.q, h.order, h.priCmpCb, h.zero⟩
    | some x => exact h.remove hcalled

/-- The next dequeue of a queue in order. -/
theorem Holds.serves (h : Holds priFunc s sorted) : s.Serves := by
  unfold Serves
  cases sorted with
  | nil =>
    rw [h.q.deq_nil]
    exact List.eq_nil_iff_forall_not_mem.mpr fun e he =>
      List.not_mem_nil (h.order.mem_iff.mpr he)
  | cons e sorted =>
    rw [h.q.deq.1]
    exact ⟨e.2, h.order.served⟩

/-- Without a priority function it returns the item that was added first. -/
theorem Holds.fifo (h : Holds none s sorted) : s.q.queueDeq.2 = s.items.head? := by
  have hserves := h.serves
  unfold Serves at hserves
  cases hdeq : s.q.queueDeq.2 with
  | none =>
    rw [hdeq] at hserves
    rw [items, hserves]
    rfl
  | some x =>
    rw [hdeq] at hserves
    obtain ⟨p, before, after, hpresent, hbefore, -⟩ := hserves
    have hp : p = 0 := h.zero rfl (x, p) (by rw [hpresent]; simp)
    cases before with
    | nil =>
      rw [items, hpresent]
      rfl
    | cons d before =>
      have hd : d.2 = 0 := h.zero rfl d (by rw [hpresent]; simp)
      have hlt := hbefore d List.mem_cons_self
      simp only [hp, hd] at hlt
      exact absurd hlt (Nat.lt_irrefl 0)

/-- **The queue is a stable priority queue**: every run ends, and after it the next dequeue
returns, of the items with the smallest value, the one that was added first; without a priority
function it is the item that was added first. -/
theorem serves_run (q : TlQueue W) (priFunc : Option (W → QueueItem → ℕ)) (run : List (PriOp W))
    (hcalled : Along next CalledNext (some ⟨q.queueInit priFunc, []⟩) run) :
    ∃ s, run.foldl next (some ⟨q.queueInit priFunc, []⟩) = some s ∧ s.Serves ∧
      (priFunc = none → s.q.queueDeq.2 = s.items.head?) := by
  have hrun : ∃ s sorted, run.foldl next (some ⟨q.queueInit priFunc, []⟩) = some s ∧
      Holds priFunc s sorted := by
    refine Along.induction (P := fun _ o => ∃ s sorted, o = some s ∧ Holds priFunc s sorted)
      ⟨_, [], rfl, TlQueue.holds_init priFunc q, stableOrder_nil, rfl,
        fun _ e he => absurd he List.not_mem_nil⟩ (fun _ op ih hop => ?_) hcalled
    obtain ⟨s, sorted, hs, hholds⟩ := ih
    rw [hs] at hop ⊢
    exact hholds.step (hop s rfl)
  obtain ⟨s, sorted, hs, hholds⟩ := hrun
  refine ⟨s, hs, hholds.serves, ?_⟩
  rintro rfl
  exact hholds.fifo

/-- A queue before it is initialised. -/
def noQueue : TlQueue Unit := ⟨none, none, none, 0, fun _ => none⟩

/-- An item at `0x100` with the value 5; any other has 3. -/
def slowFirst (_ : Unit) (x : QueueItem) : ℕ := if x.1 = 0x100 then 5 else 3

/-- An item with the value 5 and, after it, one with the value 3. -/
theorem twoItems_serve : ∃ s,
    [PriOp.enq () (some ⟨0x100, by decide⟩), .enq () (some ⟨0x200, by decide⟩)].foldl next
      (some ⟨noQueue.queueInit (some slowFirst), []⟩) = some s ∧ s.Serves ∧
      (some slowFirst = none → s.q.queueDeq.2 = s.items.head?) := by
  refine serves_run noQueue (some slowFirst) _ ⟨fun s hs => ?_, fun s hs => ?_, trivial⟩
  · rw [← Option.some.inj hs]
    exact ⟨fun x _ => List.not_mem_nil, fun e he => absurd he List.not_mem_nil⟩
  · rw [← Option.some.inj hs]
    refine ⟨fun x hx hin => ?_, fun e he => ?_⟩
    · rw [← Option.some.inj hx] at hin
      exact absurd (List.mem_singleton.mp hin) (by decide)
    · rw [List.mem_singleton.mp he]
      rfl

end PriRun

end TcBle.Common
