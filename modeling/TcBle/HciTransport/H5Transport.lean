import TcBle.HciTransport.H5Link
import TcBle.HciTransport.H5Simulation

/-!
# Reliable transport

Two endpoints from `HCI_H5_Init` on: the link is established, then data flows both ways,
while their main loops, their UARTs, the controllers and the losses of the wires take
turns in any order. What is handed over should be the start of what was queued, and no
packet should be released that was not handed over (`Delivered`).

## What is proved

* `delivered_run` — so it is in every state of every run whose steps meet `StepOk`: only
  reliable packets are queued, and a round of the main loop meets `H5.PollOk`. Each
  direction of the run is a run of the sliding window (`Sim`).
* `resent_twice` — an endpoint that sends again after an acknowledgement it could not use
  gives a packet a second number, and the other side hands it over twice.
-/

namespace TcBle.HciTransport

open TcBle.Foundation TcBle.Foundation.SlidingWindow

namespace H5Net

open H5

/-- The reliable packets that `s` has handed over. -/
def accepted (n : H5Net) (s : Side) : List RxPkt :=
  ((n.side s).handed.filter Handed.reliable).map Handed.pkt

/-- **What is handed over by `s` is the start of what its peer queued**, and only that is
released. -/
structure Delivered (n : H5Net) (s : Side) : Prop where
  /-- In order, without loss and without repetition. -/
  inOrder : n.accepted s <+: (n.side s.peer).queued.map fun p => ⟨p.hciType.code, p.payload⟩
  /-- What is released was handed over. -/
  released : (n.side s.peer).released ≤ (n.accepted s).length

/-- The condition on a step. -/
def StepOk (n : H5Net) : H5Input → Prop
  | .poll s now => (n.side s).linkState = .active → (n.side s).PollOk now
  | .queue _ p => p.Reliable
  | _ => True

instance (n : H5Net) : ∀ i, Decidable (n.StepOk i)
  | .poll s now =>
    inferInstanceAs (Decidable ((n.side s).linkState = .active → (n.side s).PollOk now))
  | .queue _ p => inferInstanceAs (Decidable p.Reliable)
  | .recv _ _ | .lose _ | .txDone _ | .handle _ => inferInstanceAs (Decidable True)

/-! ### The two windows -/

/-- **Each direction is a sliding window**: `S s` is the one from `s`, and `items s` is what is
on the wire from `s`. An active endpoint has no `SYNC` to fear. -/
structure Sim (W : ℕ) (n : H5Net) (S : Side → State TxPkt) (items : Side → List Item) : Prop where
  /-- What is on the wires. -/
  wire : ∀ s, List.Forall₂ Item.Is (items s) (n.wire s)
  /-- The data packets among it. -/
  data : ∀ s, (S s).data = Item.datas (items s)
  /-- The acknowledgements among it. -/
  acks : ∀ s, (S s).acks = Item.acks (items s.peer)
  /-- The endpoints. -/
  rel : ∀ s, Rel W (n.side s).transport (S s) (S s.peer)
  /-- The peer of an active endpoint is not idle, and no `SYNC` is on its way. -/
  active : ∀ s, (n.side s).linkState = .active →
    (n.side s.peer).linkState ≠ .idle ∧ ∀ it ∈ items s.peer, ¬ it.IsMsg hciH5MsgSync
  /-- Who has sent a `CONFIG_RSP` is not idle, -/
  rsp : ∀ s, ∀ it ∈ items s, it.IsMsg hciH5MsgConfigRsp → (n.side s).linkState ≠ .idle
  /-- and sends no `SYNC` after it. -/
  order : ∀ s, (items s).Pairwise fun a b => a.IsMsg hciH5MsgConfigRsp → ¬ b.IsMsg hciH5MsgSync

variable {W : ℕ} {n : H5Net} {S : Side → State TxPkt} {items : Side → List Item}

/-- **A turn of endpoint `s`**, which takes the items `got` from the wire. -/
theorem Sim.turn (h : Sim W n S items) (s : Side) (hout : (n.side s).out = [])
    {got rest : List Item}
    (hitems : items s.peer = got ++ rest) {ws : List (List UInt8)}
      (hws : List.Forall₂ Item.Is rest ws)
    {e : H5} (hplays : Plays W (∃ it ∈ got, it.IsMsg hciH5MsgConfigRsp) (Item.datas got)
      (Item.acks got)
      (n.side s).transport (S s) (S s.peer) e.transport) :
    ∃ S' items', Sim W ((n.setWire s.peer ws).set s e) S' items' := by
  obtain ⟨S₁, R₁, hturn, hrel⟩ := hplays
  obtain ⟨its, ws', hout', his, hdata, hacks, hsp⟩ := hturn.emits
  have hws' : e.out = ws' := by
    have hout'' : e.out = (n.side s).out ++ ws' := hout'
    rw [hout'', hout, List.nil_append]
  refine ⟨fun t => if t = s then S₁ else R₁, fun t => if t = s then items s ++ its else rest, ?_⟩
  have hsplit : (S s.peer).data = Item.datas got ++ Item.datas rest := by
    rw [h.data, hitems, Item.datas, List.filterMap_append]
    rfl
  have hsplit' : (S s).acks = Item.acks got ++ Item.acks rest := by
    rw [h.acks, hitems, Item.acks, List.filterMap_append]
    rfl
  have hpeer := h.rel s.peer
  rw [Side.peer_peer] at hpeer
  constructor
  · intro t
    rcases Side.eq_or_eq_peer s t with rfl | rfl
    · simp only [if_true, set_wire_self, setWire_wire_of_peer, hws']
      exact List.rel_append (h.wire _) his
    · simp only [Side.peer_ne, if_false, set_wire_peer, setWire_wire_self]
      exact hws
  · intro t
    rcases Side.eq_or_eq_peer s t with rfl | rfl
    · simp only [if_true]
      rw [hdata, h.data, Item.datas, Item.datas, Item.datas, List.filterMap_append]
    · simp only [Side.peer_ne, if_false]
      exact List.append_cancel_left (hturn.data.symm.trans hsplit)
  · intro t
    rcases Side.eq_or_eq_peer s t with rfl | rfl
    · simp only [if_true, Side.peer_ne, if_false]
      exact List.append_cancel_left (hturn.acks.symm.trans hsplit')
    · simp only [Side.peer_ne, if_false, Side.peer_peer, if_true]
      rw [hacks, h.acks, Side.peer_peer, Item.acks, Item.acks, Item.acks, List.filterMap_append]
  · intro t
    rcases Side.eq_or_eq_peer s t with rfl | rfl
    · simp only [if_true, Side.peer_ne, if_false, set_side_self]
      exact hrel.setOut []
    · simp only [Side.peer_ne, if_false, Side.peer_peer, if_true, set_side_peer, setWire_side]
      exact hpeer.other hturn hrel
  · intro t
    rcases Side.eq_or_eq_peer s t with rfl | rfl
    · simp only [set_side_self, set_side_peer, setWire_side, Side.peer_ne, if_false]
      intro hactive
      rcases hturn.act hactive with hwas | ⟨it, hit, hmsg⟩
      · have := h.active _ hwas
        rw [hitems] at this
        exact ⟨this.1, fun it hit => this.2 it (List.mem_append_right _ hit)⟩
      · -- the `CONFIG_RSP` tells that the peer is not idle and that no `SYNC` follows
        have hmem : it ∈ items t.peer := by
          rw [hitems]
          exact List.mem_append_left _ hit
        have horder := h.order t.peer
        rw [hitems, List.pairwise_append] at horder
        exact ⟨h.rsp _ it hmem hmsg, fun jt hjt => horder.2.2 it hit jt hjt hmsg⟩
    · simp only [set_side_peer, setWire_side, Side.peer_peer, set_side_self, if_true]
      intro hactive
      have hwas := h.active _ hactive
      rw [Side.peer_peer] at hwas
      refine ⟨hsp.mono hwas.1, fun it hit hsync => ?_⟩
      cases List.mem_append.mp hit with
      | inl hit =>
        exact hwas.2 it hit hsync
      | inr hit =>
        exact hwas.1 (hsp.sync it hit hsync)
  · intro t
    rcases Side.eq_or_eq_peer s t with rfl | rfl
    · simp only [if_true, set_side_self]
      intro it hit hmsg
      cases List.mem_append.mp hit with
      | inl hit =>
        exact hsp.mono (h.rsp _ it hit hmsg)
      | inr hit =>
        exact hsp.rsp it hit hmsg
    · simp only [Side.peer_ne, if_false, set_side_peer, setWire_side]
      intro it hit hmsg
      exact h.rsp _ it (by rw [hitems]; exact List.mem_append_right _ hit) hmsg
  · intro t
    rcases Side.eq_or_eq_peer s t with rfl | rfl
    · simp only [if_true]
      rw [List.pairwise_append]
      exact ⟨h.order _, hsp.order, fun a ha b hb hmsg hsync =>
        h.rsp _ a ha hmsg (hsp.sync b hb hsync)⟩
    · simp only [Side.peer_ne, if_false]
      have horder := h.order s.peer
      rw [hitems, List.pairwise_append] at horder
      exact horder.2.1

variable {c : Side → LocalConfig}

theorem set_self {s : Side} (hout : (n.side s).out = []) : n.set s (n.side s) = n := by
  have hside : { n.side s with out := [] } = n.side s := by rw [← hout]
  rw [H5Net.set, hside, hout, List.append_nil, Function.update_eq_self, Function.update_eq_self]

/-- The acknowledgements of a wire, the first item taken. -/
theorem Sim.acks_cons (h : Sim W n S items) {s : Side} {it : Item} {rest : List Item}
    (hitems : items s.peer = it :: rest) : (S s).acks = Item.acks [it] ++ Item.acks rest := by
  rw [h.acks, hitems, Item.acks, Item.acks, Item.acks, ← List.filterMap_append]
  rfl

/-- The data packets of a wire, the first item taken. -/
theorem Sim.data_cons (h : Sim W n S items) {s : Side} {it : Item} {rest : List Item}
    (hitems : items s.peer = it :: rest) :
    (S s.peer).data = Item.datas [it] ++ Item.datas rest := by
  rw [h.data, hitems, Item.datas, Item.datas, Item.datas, ← List.filterMap_append]
  rfl

/-- **Each thing that happens is a turn of the two windows**, when it meets its condition. -/
theorem Sim.step (h : Sim (linkWindow c) n S items) (hlink : Linked c n) {i : H5Input}
    (hok : n.StepOk i) : ∃ S' items', Sim (linkWindow c) (n.step i) S' items' := by
  -- what does not receive takes nothing from the wire
  have hturn : ∀ s e, Plays (linkWindow c)
    (∃ it ∈ ([] : List Item), it.IsMsg hciH5MsgConfigRsp) [] []
      (n.side s).transport (S s) (S s.peer) e.transport →
      ∃ S' items', Sim (linkWindow c) (n.set s e) S' items' := by
    intro s e hplays
    have hsame : n.setWire s.peer (n.wire s.peer) = n := by
      rw [setWire, Function.update_eq_self]
    have := h.turn s (hlink.out s) (List.nil_append _).symm (h.wire s.peer) hplays
    rwa [hsame] at this
  cases i with
  | poll s now => exact hturn s _ ((h.rel s).poll (linkWindow_lt c) hok)
  | txDone s => exact hturn s _ (h.rel s).stay
  | queue s p => exact hturn s _ ((h.rel s).queue hok)
  | handle s =>
    refine hturn s _ ?_
    unfold hciRxHandler
    split_ifs
    · exact (h.rel s).stay
    · exact (h.rel s).stay
  | lose s =>
    simp only [H5Net.step]
    cases hwire : n.wire s.peer with
    | nil =>
      rw [List.tail_nil, setWire, ← hwire, Function.update_eq_self]
      exact ⟨S, items, h⟩
    | cons w ws =>
      have hw := h.wire s.peer
      rw [hwire] at hw
      obtain ⟨it, rest, -, hrest, hitems⟩ := List.forall₂_cons_right_iff.mp hw
      have hdrop : Plays (linkWindow c) (∃ jt ∈ [it], jt.IsMsg hciH5MsgConfigRsp) (Item.datas [it])
          (Item.acks [it]) (n.side s).transport (S s) (S s.peer) (n.side s).transport :=
        (h.rel s).drop (h.acks_cons hitems) (h.data_cons hitems)
      have := h.turn s (hlink.out s) hitems hrest hdrop
      have hself := set_self (n := n.setWire s.peer ws) (s := s) (hlink.out s)
      rw [setWire_side] at hself
      rwa [hself] at this
  | recv s now =>
    have hafter := (hlink.step (.recv s now)).side s
    simp only [H5Net.step] at hafter ⊢
    cases hwire : n.wire s.peer with
    | nil => exact ⟨S, items, h⟩
    | cons w ws =>
      have hw := h.wire s.peer
      rw [hwire] at hw hafter
      simp only [set_side_self] at hafter
      obtain ⟨it, rest, hit, hrest, hitems⟩ := List.forall₂_cons_right_iff.mp hw
      have hsync : it.IsMsg hciH5MsgSync → (n.side s).linkState ≠ .active := fun hm ha =>
        (h.active s ha).2 it (by rw [hitems]; exact List.mem_cons_self) hm
      have hrecv := (h.rel s).recv (linkWindow_lt c) hit (h.acks_cons hitems) (h.data_cons hitems)
        hsync ⟨hafter.txSeq, hafter.txAck, hafter.crc⟩ fun ha => by
          rw [hafter.active ha, negotiated_window]
      refine h.turn s (hlink.out s) (show items s.peer = [it] ++ rest from hitems) hrest ?_
      simpa using hrecv

/-- **Every run whose steps meet their conditions is a run of the two windows.** -/
theorem sim_run (c : Side → LocalConfig) (rx : Side → RingBuffer RxPkt)
    (tx : Side → RingBuffer TxPkt)
    (size : Side → ℕ) (buf : Side → Mem) (now : Side → UInt32) {is : List H5Input}
    (hok : Run.Along step StepOk (linkInit c rx tx size buf now) is) :
    ∃ S items, Sim (linkWindow c) ((linkInit c rx tx size buf now).run is) S items := by
  refine (hok.induction (P := fun _ n => Linked c n ∧ ∃ S items, Sim (linkWindow c) n S items)
    ⟨linked_run c rx tx size buf now [], ?_⟩ ?_).2
  · refine ⟨fun _ => State.init, fun _ => [], fun _ => .nil, fun _ => rfl, fun _ => rfl,
      fun s => ?_, nofun, nofun, fun _ => .nil⟩
    exact ⟨.refl, .refl, Nat.zero_lt_succ _, Nat.zero_lt_succ _, nofun, rfl, nofun, nofun, rfl, rfl,
      fun _ => ⟨rfl, rfl⟩, nofun⟩
  · rintro _ i ⟨hlink, S, items, hsim⟩ hc
    exact ⟨hlink.step i, hsim.step hlink hc⟩

/-- Two windows keep what is handed over and what is released right. -/
theorem Sim.delivered (h : Sim W n S items) (s : Side) : n.Delivered s := by
  have hrel := h.rel s
  have hpeer := h.rel s.peer
  have hsafe := hpeer.reachS.safe
  have hhanded : (n.side s).handed = (S s.peer).handed.map TxPkt.handed := hrel.handed
  have haccepted : n.accepted s = (S s.peer).handed.map fun p => ⟨p.hciType.code, p.payload⟩ := by
    rw [accepted, hhanded]
    simp [List.filter_map, TxPkt.handed, Function.comp_def]
  refine ⟨?_, ?_⟩
  · rw [haccepted]
    by_cases hactive : (n.side s.peer).linkState = .active
    · have hqueued : (n.side s.peer).queued = (S s.peer).queued := (hpeer.sends hactive).queued
      rw [hqueued]
      exact hsafe.1.map _
    · have hnil := (hpeer.silent hactive).1
      rw [hnil] at hsafe
      rw [List.prefix_nil.mp hsafe.1]
      exact List.nil_prefix
  · have hreleased : (n.side s.peer).released = (S s.peer).released := hpeer.released
    rw [haccepted, List.length_map, hreleased]
    exact hsafe.2

/-- **Reliable transport**: in every run from `HCI_H5_Init` whose steps meet `StepOk`, what either
side has handed over is the start of what the other queued, and only that is released. -/
theorem delivered_run (c : Side → LocalConfig) (rx : Side → RingBuffer RxPkt)
    (tx : Side → RingBuffer TxPkt)
    (size : Side → ℕ) (buf : Side → Mem) (now : Side → UInt32) {is : List H5Input}
    (hok : Run.Along step StepOk (linkInit c rx tx size buf now) is) (s : Side) :
    ((linkInit c rx tx size buf now).run is).Delivered s := by
  obtain ⟨S, items, h⟩ := sim_run c rx tx size buf now hok
  exact h.delivered s

/-- After the handshake two packets are queued on the left, sent, and acknowledged together. -/
def exchange : List H5Input :=
  handshake ++ [.txDone .left, .txDone .right, .queue .left (byteEvent 1),
    .queue .left (byteEvent 2), .poll .left 20000000, .txDone .left,
      .poll .left 20000000,
    .txDone .left, .recv .right 20000000, .recv .right 20000000, .recv .left 20000000]

theorem exchange_delivered : (smallInit.run exchange).Delivered .right :=
  delivered_run smallConfig _ _ _ _ _ (by decide +kernel) .right

/-- The same, but the acknowledgement comes after the first packet was sent again. -/
def lateAck : List H5Input :=
  handshake ++ [.txDone .left, .txDone .right, .queue .left (byteEvent 1),
    .queue .left (byteEvent 2), .poll .left 20000000, .txDone .left,
      .poll .left 20000000,
    .txDone .left, .recv .right 20000000, .recv .right 20000000, .poll .left 21000000,
    .recv .left 21000000, .txDone .left, .poll .left 22000000, .recv .right 22000000,
    .recv .right 22000000]

/-- **The first packet is handed over twice**: the sender, which could not use the acknowledgement,
sends it again with the number of the third. -/
theorem resent_twice : ¬ ∀ (c : Side → LocalConfig) (rx : Side → RingBuffer RxPkt)
    (tx : Side → RingBuffer TxPkt)
    (size : Side → ℕ) (buf : Side → Mem) (now : Side → UInt32) (is : List H5Input) (s : Side),
    1 ≤ linkWindow c → ((linkInit c rx tx size buf now).run is).Delivered s := by
  intro h
  have hdelivered := (h smallConfig _ _ _ _ _ lateAck .right (by decide) :
    (smallInit.run lateAck).Delivered .right).inOrder
  exact absurd hdelivered (by decide +kernel)

end H5Net

end TcBle.HciTransport
