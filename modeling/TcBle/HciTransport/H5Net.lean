import TcBle.HciTransport.H5

/-!
# Two H5 endpoints

Two endpoints that run the same code, and the wires between them. A wire keeps the order
of the SLIP packets and may lose any of them; that one is lost is decided when it is the
oldest on its wire. The main loops of the two sides, the arrival of packets, the UARTs
and the controllers take turns in any order.
-/

namespace TcBle.HciTransport

open TcBle.Foundation

/-- One of the two endpoints. -/
inductive Side where
  /-- The one. -/
  | left
  /-- The other. -/
  | right
  deriving DecidableEq

/-- The other endpoint. -/
def Side.peer : Side → Side
  | .left => .right
  | .right => .left

@[simp] theorem Side.peer_peer (s : Side) : s.peer.peer = s := by cases s <;> rfl
@[simp] theorem Side.peer_ne (s : Side) : s.peer ≠ s := by cases s <;> decide
@[simp] theorem Side.ne_peer (s : Side) : s ≠ s.peer := by cases s <;> decide

theorem Side.eq_or_eq_peer (s t : Side) : t = s ∨ t = s.peer := by cases s <;> cases t <;> decide

/-- The endpoints and the wires. -/
structure H5Net where
  /-- The endpoints. -/
  side : Side → H5
  /-- What is on its way from an endpoint, the oldest first. -/
  wire : Side → List (List UInt8)

/-- What happens next. -/
inductive H5Input where
  /-- A round of the main loop. -/
  | poll (s : Side) (now : UInt32)
  /-- The oldest packet on its way to `s` arrives. -/
  | recv (s : Side) (now : UInt32)
  /-- The oldest packet on its way to `s` is lost. -/
  | lose (s : Side)
  /-- The UART of `s` has sent its packet. -/
  | txDone (s : Side)
  /-- The controller of `s` queues a packet. -/
  | queue (s : Side) (p : TxPkt)
  /-- The controller of `s` takes a packet. -/
  | handle (s : Side)

namespace H5Net

/-- Endpoint `s` becomes `e`; what it gave to its UART goes on the wire. -/
def set (n : H5Net) (s : Side) (e : H5) : H5Net where
  side := Function.update n.side s { e with out := [] }
  wire := Function.update n.wire s (n.wire s ++ e.out)

/-- The wire from `s` carries `ps`. -/
def setWire (n : H5Net) (s : Side) (ps : List (List UInt8)) : H5Net :=
  { n with wire := Function.update n.wire s ps }

/-- One thing happens. -/
def step (n : H5Net) : H5Input → H5Net
  | .poll s now => n.set s ((n.side s).hciH5Poll now)
  | .recv s now =>
    match n.wire s.peer with
    | [] => n
    | p :: ps => (n.setWire s.peer ps).set s ((n.side s).hciSlipDecodePacket p now)
  | .lose s => n.setWire s.peer (n.wire s.peer).tail
  | .txDone s => n.set s (n.side s).uartTxDone
  | .queue s p => n.set s ((n.side s).queue p)
  | .handle s => n.set s (n.side s).hciRxHandler

/-- A run. -/
def run (n : H5Net) (is : List H5Input) : H5Net := is.foldl step n

@[simp] theorem set_side_self (n : H5Net) (s : Side) (e : H5) :
    (n.set s e).side s = { e with out := [] } := Function.update_self _ _ _
@[simp] theorem set_side_peer (n : H5Net) (s : Side) (e : H5) :
    (n.set s e).side s.peer = n.side s.peer := Function.update_of_ne s.peer_ne _ _
@[simp] theorem set_wire_self (n : H5Net) (s : Side) (e : H5) :
    (n.set s e).wire s = n.wire s ++ e.out := Function.update_self _ _ _
@[simp] theorem set_wire_peer (n : H5Net) (s : Side) (e : H5) :
    (n.set s e).wire s.peer = n.wire s.peer := Function.update_of_ne s.peer_ne _ _
@[simp] theorem setWire_side (n : H5Net) (s : Side) (ps : List (List UInt8)) :
    (n.setWire s ps).side = n.side := rfl
@[simp] theorem setWire_wire_self (n : H5Net) (s : Side) (ps : List (List UInt8)) :
    (n.setWire s ps).wire s = ps := Function.update_self _ _ _
@[simp] theorem setWire_wire_peer (n : H5Net) (s : Side) (ps : List (List UInt8)) :
    (n.setWire s ps).wire s.peer = n.wire s.peer := Function.update_of_ne s.peer_ne _ _
@[simp] theorem setWire_wire_of_peer (n : H5Net) (s : Side) (ps : List (List UInt8)) :
    (n.setWire s.peer ps).wire s = n.wire s := Function.update_of_ne s.ne_peer _ _

end H5Net

end TcBle.HciTransport
