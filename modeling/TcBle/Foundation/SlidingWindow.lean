import Mathlib.Algebra.Ring.Nat
import Mathlib.Data.List.Basic
import Mathlib.Logic.Relation
import Mathlib.Order.Nat
import Mathlib.Tactic.Common

/-!
# A sliding window with restarts

One direction of a protocol that sends packets again from the first one not released
(go-back-n). The sender has a queue of packets, of which it has released some and sent
`win` more, at most `W`; it can start again from the first one not released at any
time. The receiver hands over the packet it is waiting for and drops the others, and
acknowledges with the number of packets it has handed over. Both channels keep the
order and may lose anything. Packets and acknowledgements carry full numbers here; a
real protocol sends them modulo some `M`.

## What is proved

* `Reachable.inv` — the invariant `Inv` of every run.
* `Reachable.safe` — what is handed over is a prefix of what was queued, and only what
  was handed over is released.
* `Inv.accept_iff` and `Inv.release_iff` — numbers modulo `M` do when `W < M`: the
  receiver's and the sender's comparisons come out as those of the full numbers.
-/

namespace TcBle.Foundation.SlidingWindow

variable {α : Type*}

/-- The two ends and the two channels. -/
structure State (α : Type*) where
  /-- The packets queued so far. -/
  queued : List α
  /-- How many of them are released. -/
  released : ℕ
  /-- How many more are sent since the last start. -/
  win : ℕ
  /-- The packets handed over by the receiver. -/
  handed : List α
  /-- The packets on their way, with their numbers. -/
  data : List (ℕ × α)
  /-- The acknowledgements on their way. -/
  acks : List ℕ

/-- The state before anything is queued. -/
def State.init : State α := ⟨[], 0, 0, [], [], []⟩

/-- What can happen. -/
inductive Step (W : ℕ) (S : State α) : State α → Prop
  /-- A packet is queued. -/
  | push (p : α) : Step W S { S with queued := S.queued ++ [p] }
  /-- The next packet is sent. -/
  | send (p : α) (hw : S.win < W) (hp : S.queued[S.released + S.win]? = some p) :
      Step W S { S with win := S.win + 1, data := S.data ++ [(S.released + S.win, p)] }
  /-- The sender starts again. -/
  | restart : Step W S { S with win := 0 }
  /-- A packet is lost, or dropped by the receiver. -/
  | lose {d : ℕ × α} {rest : List (ℕ × α)}
    (h : S.data = d :: rest) : Step W S { S with data := rest }
  /-- The packet the receiver is waiting for arrives. -/
  | accept {p : α} {rest : List (ℕ × α)} (h : S.data = (S.handed.length, p) :: rest) :
      Step W S { S with data := rest, handed := S.handed ++ [p] }
  /-- An acknowledgement is sent. -/
  | ack : Step W S { S with acks := S.acks ++ [S.handed.length] }
  /-- An acknowledgement is lost, or dropped by the sender. -/
  | loseAck {x : ℕ} {rest : List ℕ} (h : S.acks = x :: rest) : Step W S { S with acks := rest }
  /-- The acknowledgement of everything sent arrives. -/
  | release {rest : List ℕ} (h : S.acks = (S.released + S.win) :: rest) :
      Step W S { S with released := S.released + S.win, win := 0, acks := rest }

/-- What holds in every run. -/
structure Inv (W : ℕ) (S : State α) : Prop where
  /-- The window is not overrun. -/
  win_le : S.win ≤ W
  /-- What is sent was queued. -/
  sent : S.released + S.win ≤ S.queued.length
  /-- Only what was handed over is released. -/
  released_le : S.released ≤ S.handed.length
  /-- The receiver is at most a window ahead. -/
  handed_le : S.handed.length ≤ S.released + W
  /-- What is handed over is the start of the queue. -/
  handed : S.handed <+: S.queued
  /-- A packet on its way is the one of its number, -/
  content : ∀ d ∈ S.data, S.queued[d.1]? = some d.2
  /-- is at most a window ahead of what is released, -/
  ahead : ∀ d ∈ S.data, d.1 < S.released + W
  /-- and at most a window behind what is handed over. -/
  behind : ∀ d ∈ S.data, S.handed.length ≤ d.1 + W
  /-- A later packet is at most a window behind an earlier one. -/
  order : S.data.Pairwise fun d e => d.1 < e.1 + W
  /-- An acknowledgement on its way is not older than what is released, -/
  acks_ge : ∀ x ∈ S.acks, S.released ≤ x
  /-- not newer than what is handed over, -/
  acks_le : ∀ x ∈ S.acks, x ≤ S.handed.length
  /-- and not older than an earlier one. -/
  acks_order : S.acks.Pairwise (· ≤ ·)

variable {W : ℕ} {S T : State α}

theorem inv_init (W : ℕ) : Inv W (State.init : State α) := by
  constructor <;> simp [State.init]

theorem getElem?_append_some {l : List α} {i : ℕ} {p : α} (h : l[i]? = some p) (m : List α) :
    (l ++ m)[i]? = some p := by
  obtain ⟨hi, -⟩ := List.getElem?_eq_some_iff.mp h
  rw [List.getElem?_append_left hi, h]

/-- Numbers less than `M` apart are the same when they are modulo `M`. -/
theorem eq_of_mod_eq {a b M : ℕ} (h : a % M = b % M) (hab : a < b + M) (hba : b < a + M) :
    a = b := by
  cases Nat.le_total a b with
  | inl hle =>
    have hdvd := Nat.dvd_of_mod_eq_zero (Nat.sub_mod_eq_zero_of_mod_eq h.symm)
    have := Nat.eq_zero_of_dvd_of_lt hdvd (by omega)
    omega
  | inr hle =>
    have hdvd := Nat.dvd_of_mod_eq_zero (Nat.sub_mod_eq_zero_of_mod_eq h)
    have := Nat.eq_zero_of_dvd_of_lt hdvd (by omega)
    omega

namespace Inv

theorem push (h : Inv W S) (p : α) : Inv W { S with queued := S.queued ++ [p] } where
  win_le := h.win_le
  sent := by
    have := h.sent
    simp only [List.length_append]
    omega
  released_le := h.released_le
  handed_le := h.handed_le
  handed := h.handed.trans (List.prefix_append _ _)
  content d hd := getElem?_append_some (h.content d hd) [p]
  ahead := h.ahead
  behind := h.behind
  order := h.order
  acks_ge := h.acks_ge
  acks_le := h.acks_le
  acks_order := h.acks_order

theorem send (h : Inv W S) {p : α} (hw : S.win < W) (hp : S.queued[S.released + S.win]? = some p) :
    Inv W { S with win := S.win + 1, data := S.data ++ [(S.released + S.win, p)] } where
  win_le := hw
  sent := (List.getElem?_eq_some_iff.mp hp).1
  released_le := h.released_le
  handed_le := h.handed_le
  handed := h.handed
  content d hd := by
    cases List.mem_append.mp hd with
    | inl hd =>
      exact h.content d hd
    | inr hd =>
      rw [List.mem_singleton.mp hd]
      exact hp
  ahead d hd := by
    cases List.mem_append.mp hd with
    | inl hd =>
      exact h.ahead d hd
    | inr hd =>
      rw [List.mem_singleton.mp hd]
      exact Nat.add_lt_add_left hw _
  behind d hd := by
    cases List.mem_append.mp hd with
    | inl hd =>
      exact h.behind d hd
    | inr hd =>
      rw [List.mem_singleton.mp hd]
      have := h.handed_le
      simp only
      omega
  order := by
    -- the new packet is behind no one by more than a window: all are ahead of what is released by
    -- less
    rw [List.pairwise_append]
    refine ⟨h.order, List.pairwise_singleton _ _, fun d hd e he => ?_⟩
    rw [List.mem_singleton.mp he]
    have := h.ahead d hd
    simp only
    omega
  acks_ge := h.acks_ge
  acks_le := h.acks_le
  acks_order := h.acks_order

theorem restart (h : Inv W S) : Inv W { S with win := 0 } where
  win_le := Nat.zero_le _
  sent := (Nat.le_add_right _ _).trans h.sent
  released_le := h.released_le
  handed_le := h.handed_le
  handed := h.handed
  content := h.content
  ahead := h.ahead
  behind := h.behind
  order := h.order
  acks_ge := h.acks_ge
  acks_le := h.acks_le
  acks_order := h.acks_order

theorem lose (h : Inv W S) {d : ℕ × α} {rest : List (ℕ × α)} (hd : S.data = d :: rest) :
    Inv W { S with data := rest } where
  win_le := h.win_le
  sent := h.sent
  released_le := h.released_le
  handed_le := h.handed_le
  handed := h.handed
  content e he := h.content e (hd ▸ List.mem_cons_of_mem d he)
  ahead e he := h.ahead e (hd ▸ List.mem_cons_of_mem d he)
  behind e he := h.behind e (hd ▸ List.mem_cons_of_mem d he)
  order := (List.pairwise_cons.mp (hd ▸ h.order)).2
  acks_ge := h.acks_ge
  acks_le := h.acks_le
  acks_order := h.acks_order

theorem accept (h : Inv W S) {p : α} {rest : List (ℕ × α)}
    (hd : S.data = (S.handed.length, p) :: rest) :
    Inv W { S with data := rest, handed := S.handed ++ [p] } := by
  have hmem : (S.handed.length, p) ∈ S.data := by simp [hd]
  have hahead := h.ahead _ hmem
  have hrest := h.lose hd
  refine { hrest with
    released_le := ?_, handed_le := ?_, handed := ?_, behind := ?_, acks_le := ?_ }
  · have := h.released_le
    simp only [List.length_append]
    omega
  · simp only [List.length_append, List.length_singleton]
    exact hahead
  · obtain ⟨t, ht⟩ := h.handed
    have hp := h.content _ hmem
    rw [← ht, List.getElem?_append_right (Nat.le_refl _), Nat.sub_self] at hp
    cases t with
    | nil => simp at hp
    | cons q t =>
      rw [List.getElem?_cons_zero, Option.some.injEq] at hp
      exact ⟨t, by rw [← ht, hp, List.append_assoc]; rfl⟩
  · intro e he
    have := (List.pairwise_cons.mp (hd ▸ h.order)).1 e he
    simp only at this
    simp only [List.length_append, List.length_singleton]
    omega
  · intro x hx
    have := h.acks_le x hx
    simp only [List.length_append]
    omega

theorem ack (h : Inv W S) : Inv W { S with acks := S.acks ++ [S.handed.length] } := by
  refine { h with acks_ge := ?_, acks_le := ?_, acks_order := ?_ }
  · intro x hx
    cases List.mem_append.mp hx with
    | inl hx =>
      exact h.acks_ge x hx
    | inr hx =>
      rw [List.mem_singleton.mp hx]
      exact h.released_le
  · intro x hx
    cases List.mem_append.mp hx with
    | inl hx =>
      exact h.acks_le x hx
    | inr hx =>
      exact (List.mem_singleton.mp hx).le
  · rw [List.pairwise_append]
    refine ⟨h.acks_order, List.pairwise_singleton _ _, fun x hx y hy => ?_⟩
    rw [List.mem_singleton.mp hy]
    exact h.acks_le x hx

theorem loseAck (h : Inv W S) {x : ℕ} {rest : List ℕ} (hx : S.acks = x :: rest) :
    Inv W { S with acks := rest } := by
  refine { h with acks_ge := ?_, acks_le := ?_, acks_order := ?_ }
  · exact fun y hy => h.acks_ge y (hx ▸ List.mem_cons_of_mem x hy)
  · exact fun y hy => h.acks_le y (hx ▸ List.mem_cons_of_mem x hy)
  · exact (List.pairwise_cons.mp (hx ▸ h.acks_order)).2

theorem release (h : Inv W S) {rest : List ℕ} (hx : S.acks = (S.released + S.win) :: rest) :
    Inv W { S with released := S.released + S.win, win := 0, acks := rest } := by
  have hrest := h.loseAck hx
  refine { hrest with
    win_le := Nat.zero_le _, sent := h.sent, released_le := ?_, handed_le := ?_, ahead := ?_,
    acks_ge := ?_ }
  · exact h.acks_le _ (by simp [hx])
  · have := h.handed_le
    simp only
    omega
  · intro d hd
    have := h.ahead d hd
    simp only
    omega
  · exact fun y hy => (List.pairwise_cons.mp (hx ▸ h.acks_order)).1 y hy

/-- Every step keeps the invariant. -/
theorem step (h : Inv W S) (hstep : Step W S T) : Inv W T := by
  cases hstep with
  | push p => exact h.push p
  | send p hw hp => exact h.send hw hp
  | restart => exact h.restart
  | lose hd => exact h.lose hd
  | accept hd => exact h.accept hd
  | ack => exact h.ack
  | loseAck hx => exact h.loseAck hx
  | release hx => exact h.release hx

/-- **Packet numbers modulo `M` do**: the next packet to arrive is the one the receiver is
waiting for when its number is so modulo `M`. -/
theorem accept_iff (h : Inv W S) {M : ℕ} (hM : W < M) {d : ℕ × α} {rest : List (ℕ × α)}
    (hd : S.data = d :: rest) : d.1 % M = S.handed.length % M ↔ d.1 = S.handed.length := by
  refine ⟨fun hmod => ?_, fun heq => by rw [heq]⟩
  have hmem : d ∈ S.data := by simp [hd]
  have hahead := h.ahead d hmem
  have hbehind := h.behind d hmem
  have hrel := h.released_le
  exact eq_of_mod_eq hmod (by omega) (by omega)

/-- **So do acknowledgements**: the next one is that of everything sent when its number is
so modulo `M`. -/
theorem release_iff (h : Inv W S) {M : ℕ} (hM : W < M) {x : ℕ} {rest : List ℕ}
    (hx : S.acks = x :: rest) : x % M = (S.released + S.win) % M ↔ x = S.released + S.win := by
  refine ⟨fun hmod => ?_, fun heq => by rw [heq]⟩
  have hmem : x ∈ S.acks := by simp [hx]
  have hge := h.acks_ge x hmem
  have hle := h.acks_le x hmem
  have hwin := h.win_le
  have hhanded := h.handed_le
  exact eq_of_mod_eq hmod (by omega) (by omega)

end Inv

/-- The states of the runs. -/
def Reachable (W : ℕ) (S : State α) : Prop := Relation.ReflTransGen (Step W) State.init S

theorem Reachable.inv (h : Reachable W S) : Inv W S := by
  induction h with
  | refl => exact inv_init W
  | tail _ hstep ih => exact ih.step hstep

/-- **Safety**: what is handed over is a prefix of what was queued, and only what was handed
over is released. -/
theorem Reachable.safe (h : Reachable W S) :
    S.handed <+: S.queued ∧ S.released ≤ S.handed.length :=
  ⟨h.inv.handed, h.inv.released_le⟩

end TcBle.Foundation.SlidingWindow
