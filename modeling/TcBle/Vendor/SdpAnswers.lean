import TcBle.Vendor.GattServer
import Mathlib.Data.List.TakeWhile

/-!
# The answers of a server, as the discovery reads them

What the discovery asks for, a server's answer that is delivered while the request is waited for,
and what the loops over the records of an answer make of it.

## What is proved

* `ask_of_delivered` — an answer that is delivered is what the discovery goes on with.
* `charLoop_took` — the records of characteristics go to the two tables, as long as these have room.
* `findRef_eq` — the search for the report reference is a search through the records.
-/

namespace TcBle.Vendor

open TcBle.HciTransport

/-- The opcode of a request. -/
def AttReq.op : AttReq → ℕ
  | readByType _ _ => ATT_OP_READ_BY_TYPE_REQ
  | findInfo _ => ATT_OP_FIND_INFORMATION_REQ
  | read _ => ATT_OP_READ_REQ

theorem Uuid.exists_short {u : Uuid} (h : u.bytes.length = 2) : ∃ v, u = .short v := by
  cases u with
  | short v => exact ⟨v, rfl⟩
  | long b =>
    rw [Uuid.bytes, Vector.length_toList] at h
    cases h

theorem Uuid.exists_long {u : Uuid} (h : u.bytes.length = 16) : ∃ b, u = .long b := by
  cases u with
  | short v => cases h
  | long b => exact ⟨b, rfl⟩

theorem Uuid.length_bytes (u : Uuid) : u.bytes.length = 2 ∨ u.bytes.length = 16 := by
  cases u with
  | short v => exact Or.inl rfl
  | long b => exact Or.inr Vector.length_toList

theorem Uuid.length_of_format {u v : Uuid} (h : Server.format u = Server.format v) :
    u.bytes.length = v.bytes.length := by
  cases u with
  | short a =>
    cases v with
    | short b => rfl
    | long b => cases h
  | long a =>
    cases v with
    | short b => cases h
    | long b => rw [Uuid.bytes, Uuid.bytes, Vector.length_toList, Vector.length_toList]

theorem AttReq.op_ne_zero (req : AttReq) : req.op ≠ 0 := by
  cases req with
  | readByType start type => exact show ATT_OP_READ_BY_TYPE_REQ ≠ 0 by decide
  | findInfo start => exact show ATT_OP_FIND_INFORMATION_REQ ≠ 0 by decide
  | read handle => exact show ATT_OP_READ_REQ ≠ 0 by decide

namespace Discovery

variable {e f : Discovery}

/-- The loop over the descriptors: `pd[0]` of the report reference, where the source reads it for
the request that follows. -/
def refHandle (dat : Mem) (n pd : ℕ) : Option ℕ :=
  if h : 0 < n then
    let uuid := u16At (adv dat (pd + 2))
    if uuid = GATT_UUID_CHARACTER ∨ uuid = GATT_UUID_PRIMARY_SERVICE then none
    else if uuid = GATT_UUID_REPORT_REF then some (dat pd).toNat
    else refHandle dat (n - 4) (pd + 4)
  else none
termination_by n
decreasing_by omega

/-- The next request. -/
def asks (e : Discovery) : Option AttReq :=
  match e.phase with
  | .chars => some (.readByType e.s .character)
  | .findInfo i => e.p16[i]?.map fun entry => .findInfo entry.handle
  | .readRef _ => (refHandle e.dat (e.l2capLen - 2) 8).map .read
  | .success | .timeout => none

/-- The packet carries `pdu` on a connection. -/
structure Carries (connHandle : ℕ) (pdu : List UInt8) (pkt : AttPacket) : Prop where
  /-- The connection. -/
  connHandle : pkt.connHandle = connHandle
  /-- The length field. -/
  len : pkt.l2capLen = pdu.length
  /-- The channel. -/
  chanId : u16At (adv pkt.p 4) = 4
  /-- The bytes. -/
  pdu : bytes (adv pkt.p 6) pdu.length = pdu

/-- `pdu` is delivered while a request is waited for, and no other packet is taken for the answer:
not before, when the request is under way, and not after, when none is. -/
def Delivered (busy connHandle : ℕ) (pdu : List UInt8) (rounds : Rounds) : Prop :=
  ∃ early pre pkt post next late, rounds = early ++ (pre ++ pkt :: post) :: next :: late ∧
    Carries connHandle pdu pkt ∧ (∀ q ∈ early.flatten ++ pre, ¬Matches busy q) ∧
    ∀ q ∈ post, ¬Matches 0 q

/-- The server answers the next request in time. -/
def Served (srv : Server) (e : Discovery) (rounds : Rounds) : Prop :=
  ∀ req ∈ e.asks, Delivered (e.reqBusy req.op) e.handle (srv.answer req) rounds

/-! ### An answer is delivered -/

/-- What an answer leaves: it is in `dat`, and nothing else has changed but that its opcode is where
that of the request was. -/
structure Answered (pdu : List UInt8) (e f : Discovery) : Prop where
  /-- The entries of `p16`. -/
  p16 : f.p16 = e.p16
  /-- The entries of `p128`. -/
  p128 : f.p128 = e.p128
  /-- The sizes of the tables. -/
  sizes : f.n16 = e.n16 ∧ f.n128 = e.n128
  /-- The connection. -/
  handle : f.handle = e.handle
  /-- The start handle. -/
  s : f.s = e.s
  /-- What comes next. -/
  phase : f.phase = e.phase
  /-- The answer. -/
  dat : bytes (adv f.dat 6) pdu.length = pdu
  /-- Its length. -/
  len : f.l2capLen = pdu.length
  /-- What is behind it. -/
  behind : ∀ i, 7 ≤ i → pdu.length + 6 ≤ i → f.dat i = e.dat i

/-- A packet that is taken for the answer. -/
theorem handler_of_matches {pkt : AttPacket} (h : Matches e.busy pkt) :
    e.hostAttClientHandler pkt =
      { e with
        dat := memcpy e.dat 0 (bytes pkt.p (pkt.l2capLen + 6))
        top := max e.top (pkt.l2capLen + 6)
        busy := 0 } := if_pos h

/-- Packets that are not. -/
theorem foldl_handler_of_not_matches {round : List AttPacket}
    (h : ∀ q ∈ round, ¬Matches e.busy q) : round.foldl hostAttClientHandler e = e := by
  induction round with
  | nil => rfl
  | cons q round ih =>
    obtain ⟨hq, hround⟩ := List.forall_mem_cons.mp h
    rw [List.foldl_cons, hostAttClientHandler, if_neg hq]
    exact ih hround

/-- **The wait** for an answer that comes. -/
theorem waitLoop_eq {early : Rounds} {pre post next : List AttPacket} {late : Rounds}
    {pkt : AttPacket} (hbusy : e.busy ≠ 0) (hmatch : Matches e.busy pkt)
    (hbefore : ∀ q ∈ early.flatten ++ pre, ¬Matches e.busy q) (hafter : ∀ q ∈ post, ¬Matches 0 q) :
    waitLoop (early ++ (pre ++ pkt :: post) :: next :: late) e =
      (e.hostAttClientHandler pkt, false) := by
  induction early with
  | nil =>
    have hpre : ∀ q ∈ pre, ¬Matches e.busy q := fun q hq => hbefore q (by simpa using hq)
    rw [List.nil_append, waitLoop, if_neg hbusy, List.foldl_append,
      foldl_handler_of_not_matches hpre, List.foldl_cons, handler_of_matches hmatch,
      foldl_handler_of_not_matches hafter, waitLoop, if_pos rfl]
  | cons round early ih =>
    rw [List.flatten_cons, List.append_assoc] at hbefore
    rw [List.cons_append, waitLoop, if_neg hbusy, foldl_handler_of_not_matches fun q hq =>
      hbefore q (List.mem_append_left _ hq)]
    exact ih fun q hq => hbefore q (List.mem_append_right _ hq)

/-- The opcode of the answer is that of the request with the lowest bit set, or that of an error. -/
theorem answer_op (srv : Server) (req : AttReq) : ∃ op pdu, srv.answer req = op :: pdu ∧
    (op.toNat = 1 ∨ op.toNat = req.op ||| 1) := by
  cases req with
  | readByType start type =>
    rw [Server.answer]
    split
    · exact ⟨_, _, rfl, Or.inl rfl⟩
    · exact ⟨_, _, rfl, Or.inr (show _ = ATT_OP_READ_BY_TYPE_REQ ||| 1 by decide)⟩
  | findInfo start =>
    rw [Server.answer]
    split
    · exact ⟨_, _, rfl, Or.inl rfl⟩
    · exact ⟨_, _, rfl, Or.inr (show _ = ATT_OP_FIND_INFORMATION_REQ ||| 1 by decide)⟩
  | read handle =>
    rw [Server.answer]
    split
    · exact ⟨_, _, rfl, Or.inl rfl⟩
    · exact ⟨_, _, rfl, Or.inr (show _ = ATT_OP_READ_REQ ||| 1 by decide)⟩

/-- The answer is taken for it. -/
theorem Carries.matches {srv : Server} {req : AttReq} {pkt : AttPacket}
    (hhandle : e.handle < 2 ^ 16) (h : Carries e.handle (srv.answer req) pkt) :
    Matches (e.reqBusy req.op) pkt := by
  obtain ⟨op, pdu, hpdu, hop⟩ := answer_op srv req
  have hconn : (e.handle ||| req.op <<< 16) &&& 7 = e.handle &&& 7 := by
    have hzero : req.op <<< 16 &&& 7 = 0 := by
      rw [show (7 : ℕ) = 2 ^ 3 - 1 from rfl, Nat.and_two_pow_sub_one_eq_mod, Nat.shiftLeft_eq]
      omega
    rw [Nat.and_or_distrib_right, hzero, Nat.or_zero]
  have hreq : (e.handle ||| req.op <<< 16) >>> 16 = req.op := by
    rw [Nat.shiftRight_or_distrib, Nat.shiftLeft_shiftRight, Nat.shiftRight_eq_div_pow,
      Nat.div_eq_of_lt hhandle, Nat.zero_or]
  have hbyte : pkt.p 6 = op := by
    have hhead := congrArg (fun l => l.getD 0 0) h.pdu
    rw [hpdu, getD_bytes _ (by simp)] at hhead
    exact hhead
  refine ⟨?_, h.chanId, ?_⟩
  · rw [h.connHandle, reqBusy, hconn]
  · rw [hbyte, reqBusy, hreq]
    exact hop

theorem request_dat (op : ℕ) (e : Discovery) {i : ℕ} (hi : 7 ≤ i) :
    (e.request op).dat i = e.dat i := memcpy_of_outside e.dat (Or.inr hi)

/-- **An answer that is delivered** is what the discovery goes on with. -/
theorem ask_of_delivered {srv : Server} {req : AttReq} {rounds : Rounds}
    {answer : Discovery → Discovery} (hhandle : e.handle < 2 ^ 16)
    (h : Delivered (e.reqBusy req.op) e.handle (srv.answer req) rounds) :
    ∃ f, e.ask req.op answer rounds = answer f ∧ Answered (srv.answer req) e f := by
  obtain ⟨early, pre, pkt, post, next, late, rfl, hcarries, hbefore, hafter⟩ := h
  have hmatch := hcarries.matches hhandle
  have hne : req.op ≠ 0 := req.op_ne_zero
  have hwait : e.hostAttServiceWaitEvent req.op (early ++ (pre ++ pkt :: post) :: next :: late) =
      ((e.request req.op).hostAttClientHandler pkt, false) :=
    waitLoop_eq (e := e.request req.op) (e.reqBusy_ne_zero hne) hmatch hbefore hafter
  refine ⟨(e.request req.op).hostAttClientHandler pkt, by rw [ask, hwait]; rfl, ?_⟩
  rw [handler_of_matches (show Matches (e.request req.op).busy pkt from hmatch)]
  have hcopy : ∀ i < pkt.l2capLen + 6,
      memcpy (e.request req.op).dat 0 (bytes pkt.p (pkt.l2capLen + 6)) i = pkt.p i := by
    intro i hi
    rw [memcpy, if_pos (Nat.zero_le i), Nat.sub_zero, getD_bytes pkt.p hi]
  refine ⟨rfl, rfl, ⟨rfl, rfl⟩, rfl, rfl, rfl, ?_, ?_, fun i hi hlen => ?_⟩
  · refine Eq.trans (bytes_congr fun i hi => ?_) hcarries.pdu
    rw [← hcarries.len] at hi
    exact hcopy (i + 6) (by omega)
  · rw [← hcarries.len]
    simp only [l2capLen, AttPacket.l2capLen, u16At, adv] at hcopy ⊢
    rw [hcopy 2 (by omega), hcopy 3 (by omega)]
  · rw [← hcarries.len] at hlen
    have hold : memcpy (e.request req.op).dat 0 (bytes pkt.p (pkt.l2capLen + 6)) i =
        (e.request req.op).dat i :=
      memcpy_of_outside _ (Or.inr (by rw [length_bytes]; omega))
    exact hold.trans (request_dat req.op e hi)

/-! ### The records of an answer -/

/-- Bytes in memory, cut in two. -/
theorem bytes_append_iff {m : Mem} {pos : ℕ} {a b : List UInt8} :
    bytes (adv m pos) (a ++ b).length = a ++ b ↔
      bytes (adv m pos) a.length = a ∧ bytes (adv m (pos + a.length)) b.length = b := by
  rw [List.length_append, bytes_add, adv_adv]
  constructor
  · intro h
    exact List.append_inj h (length_bytes _ _)
  · rintro ⟨ha, hb⟩
    rw [ha, hb]

theorem u16At_of_bytes {m : Mem} {pos x : ℕ} (hx : x < 2 ^ 16)
    (h : bytes (adv m pos) (le16 x).length = le16 x) : u16At (adv m pos) = x := by
  have hlist : [adv m pos 0, adv m pos 1] = [UInt8.ofNat x, UInt8.ofNat (x / 2 ^ 8)] := h
  obtain ⟨h0, h1⟩ := List.cons_eq_cons.mp hlist
  rw [u16At, h0, (List.cons_eq_cons.mp h1).1, UInt8.toNat_ofNat', UInt8.toNat_ofNat']
  omega

theorem byte_of_bytes {m : Mem} {pos : ℕ} {b : UInt8}
    (h : bytes (adv m pos) [b].length = [b]) : m pos = b := by
  have hlist : [adv m pos 0] = [b] := h
  have := (List.cons_eq_cons.mp hlist).1
  rwa [adv, Nat.zero_add] at this

theorem cons_of_bytes {m : Mem} {pos : ℕ} {b : UInt8} {l : List UInt8}
    (h : bytes (adv m pos) (b :: l).length = b :: l) :
    m pos = b ∧ bytes (adv m (pos + 1)) l.length = l := by
  obtain ⟨hb, hl⟩ := (bytes_append_iff (a := [b])).mp h
  exact ⟨byte_of_bytes hb, hl⟩

/-- The entry of `p16` for a characteristic. -/
def entry16 (c : Characteristic) : Option AttDbUuid16 :=
  match c.uuid with
  | .short u => some ⟨c.property, c.valueHandle, u.toNat, 0⟩
  | .long _ => none

/-- The entry of `p128` for a characteristic. -/
def entry128 (c : Characteristic) : Option AttDbUuid128 :=
  match c.uuid with
  | .short _ => none
  | .long b => some ⟨c.property, c.valueHandle, b.toList⟩

/-- The record of a characteristic in an answer. -/
def record (c : Characteristic) : List UInt8 := le16 c.handle ++ c.declaration.value

theorem length_record (c : Characteristic) : (record c).length = 5 + c.uuid.bytes.length := by
  rw [record, Characteristic.declaration, List.length_append, List.cons_append, List.length_cons,
    List.length_append]
  show 2 + (2 + _ + 1) = _
  omega

/-- The tables are no longer than they may be. -/
def Room (e : Discovery) : Prop := e.p16.length ≤ e.n16 ∧ e.p128.length ≤ e.n128

/-- **What becomes of characteristics**: they go to the tables, as far as these have room, and the
next request is from the last one on. -/
structure Took (cs : List Characteristic) (e f : Discovery) : Prop where
  /-- The entries of `p16`. -/
  p16 : f.p16 = (e.p16 ++ cs.filterMap entry16).take e.n16
  /-- The entries of `p128`. -/
  p128 : f.p128 = (e.p128 ++ cs.filterMap entry128).take e.n128
  /-- The sizes of the tables. -/
  sizes : f.n16 = e.n16 ∧ f.n128 = e.n128
  /-- The connection. -/
  handle : f.handle = e.handle
  /-- The start handle. -/
  s : f.s = (cs.getLast?.map Characteristic.valueHandle).getD e.s
  /-- What comes next. -/
  phase : f.phase = e.phase

theorem Took.nil (h : e.Room) : Took [] e e := by
  refine ⟨?_, ?_, ⟨rfl, rfl⟩, rfl, rfl, rfl⟩
  · rw [List.filterMap_nil, List.append_nil, List.take_of_length_le h.1]
  · rw [List.filterMap_nil, List.append_nil, List.take_of_length_le h.2]

theorem Took.room {cs : List Characteristic} (h : Took cs e f) : f.Room := by
  refine ⟨?_, ?_⟩
  · rw [h.p16, h.sizes.1]
    exact List.length_take_le _ _
  · rw [h.p128, h.sizes.2]
    exact List.length_take_le _ _

theorem Took.trans {g : Discovery} {cs cs' : List Characteristic} (h : Took cs e f)
    (h' : Took cs' f g) : Took (cs ++ cs') e g := by
  have htake : ∀ {α : Type} (l x : List α) (n : ℕ), (l.take n ++ x).take n = (l ++ x).take n := by
    intro α l x n
    rw [List.take_append, List.take_append, List.take_take, Nat.min_self, List.length_take]
    congr 2
    omega
  refine ⟨?_, ?_, ⟨h'.sizes.1.trans h.sizes.1, h'.sizes.2.trans h.sizes.2⟩,
    h'.handle.trans h.handle, ?_, h'.phase.trans h.phase⟩
  · rw [h'.p16, h.p16, h.sizes.1, List.filterMap_append, ← List.append_assoc, htake]
  · rw [h'.p128, h.p128, h.sizes.2, List.filterMap_append, ← List.append_assoc, htake]
  · rw [h'.s, h.s, List.getLast?_append]
    cases cs'.getLast? with
    | none => rfl
    | some c => rfl

/-- What is read of the record of a characteristic. -/
theorem record_fields {c : Characteristic} {pd : ℕ} (hvalue : c.valueHandle < 2 ^ 16)
    (h : bytes (adv e.dat pd) (record c).length = record c) :
    e.dat (pd + 2) = c.property ∧ u16At (adv e.dat (pd + 3)) = c.valueHandle ∧
      bytes (adv e.dat (pd + 5)) c.uuid.bytes.length = c.uuid.bytes := by
  have hrecord : record c = le16 c.handle ++ ([c.property] ++
    (le16 c.valueHandle ++ c.uuid.bytes)) := rfl
  rw [hrecord] at h
  obtain ⟨-, h⟩ := bytes_append_iff.mp h
  obtain ⟨hprop, h⟩ := bytes_append_iff.mp h
  obtain ⟨hhandle, huuid⟩ := bytes_append_iff.mp h
  exact ⟨byte_of_bytes hprop, u16At_of_bytes hvalue hhandle, huuid⟩

/-- One more entry for a table that may have room. -/
theorem take_append_singleton {α : Type*} {l : List α} {n : ℕ} (h : l.length ≤ n) (x : α) :
    (l ++ [x]).take n = if l.length < n then l ++ [x] else l := by
  split_ifs with hlt
  · exact List.take_of_length_le (by rw [List.length_append, List.length_singleton]; omega)
  · rw [List.take_append_of_le_length (by omega), List.take_of_length_le h]

theorem char16_took {c : Characteristic} {u : UInt16} {pd : ℕ} (hshort : c.uuid = .short u)
    (hvalue : c.valueHandle < 2 ^ 16) (hroom : e.Room)
    (h : bytes (adv e.dat pd) (record c).length = record c) :
    Took [c] e (e.char16 pd) ∧ (e.char16 pd).dat = e.dat := by
  obtain ⟨hprop, hhandle, huuid⟩ := record_fields hvalue h
  have hu : u16At (adv e.dat (pd + 5)) = u.toNat := by
    rw [hshort] at huuid
    exact u16At_of_bytes u.toNat_lt huuid
  have h16 : [c].filterMap entry16 = [⟨c.property, c.valueHandle, u.toNat, 0⟩] := by
    simp [entry16, hshort]
  have h128 : [c].filterMap entry128 = [] := by
    simp [entry128, hshort]
  rw [char16, hprop, hhandle, hu]
  simp only
  split_ifs with hlt
  · refine ⟨⟨?_, ?_, ⟨rfl, rfl⟩, rfl, rfl, rfl⟩, rfl⟩
    · rw [h16, take_append_singleton hroom.1, if_pos hlt]
    · rw [h128, List.append_nil, List.take_of_length_le hroom.2]
  · refine ⟨⟨?_, ?_, ⟨rfl, rfl⟩, rfl, rfl, rfl⟩, rfl⟩
    · rw [h16, take_append_singleton hroom.1, if_neg hlt]
    · rw [h128, List.append_nil, List.take_of_length_le hroom.2]

theorem char128_took {c : Characteristic} {b : Vector UInt8 16} {pd : ℕ} (hlong : c.uuid = .long b)
    (hvalue : c.valueHandle < 2 ^ 16) (hroom : e.Room)
    (h : bytes (adv e.dat pd) (record c).length = record c) :
    Took [c] e (e.char128 pd) ∧ (e.char128 pd).dat = e.dat := by
  obtain ⟨hprop, hhandle, huuid⟩ := record_fields hvalue h
  have hb : bytes (adv e.dat (pd + 5)) 16 = b.toList := by
    rw [hlong] at huuid
    simpa [Uuid.bytes] using huuid
  have h16 : [c].filterMap entry16 = [] := by
    simp [entry16, hlong]
  have h128 : [c].filterMap entry128 = [⟨c.property, c.valueHandle, b.toList⟩] := by
    simp [entry128, hlong]
  rw [char128, hprop, hhandle, hb]
  simp only
  split_ifs with hlt
  · refine ⟨⟨?_, ?_, ⟨rfl, rfl⟩, rfl, rfl, rfl⟩, rfl⟩
    · rw [h16, List.append_nil, List.take_of_length_le hroom.1]
    · rw [h128, take_append_singleton hroom.2, if_pos hlt]
  · refine ⟨⟨?_, ?_, ⟨rfl, rfl⟩, rfl, rfl, rfl⟩, rfl⟩
    · rw [h16, List.append_nil, List.take_of_length_le hroom.1]
    · rw [h128, take_append_singleton hroom.2, if_neg hlt]

/-- **The loop over the records** takes the characteristics one by one. -/
theorem charLoop_took {size : ℕ} {char : ℕ → Discovery → Discovery} (hsize : 2 < size)
    {cs : List Characteristic} (hlen : ∀ c ∈ cs, (record c).length = size)
    (hchar : ∀ c ∈ cs, ∀ (pd : ℕ) (e : Discovery), e.Room →
      bytes (adv e.dat pd) (record c).length = record c →
      Took [c] e (char pd e) ∧ (char pd e).dat = e.dat)
    {pd : ℕ} (hroom : e.Room)
    (h : bytes (adv e.dat pd) (cs.flatMap record).length = cs.flatMap record) :
    Took cs e (charLoop size char (2 + size * cs.length) pd e) := by
  induction cs generalizing e pd with
  | nil =>
    rw [charLoop, dif_neg (by simp; omega)]
    exact Took.nil hroom
  | cons c cs ih =>
    obtain ⟨hc, hcs⟩ := List.forall_mem_cons.mp hlen
    obtain ⟨hcharc, hcharcs⟩ := List.forall_mem_cons.mp hchar
    rw [List.flatMap_cons] at h
    obtain ⟨hrecord, hrest⟩ := bytes_append_iff.mp h
    obtain ⟨htook, hdat⟩ := hcharc pd e hroom hrecord
    have hle : 2 + size * (c :: cs).length - size = 2 + size * cs.length := by
      rw [List.length_cons, Nat.mul_add, Nat.mul_one]
      omega
    rw [charLoop, dif_pos ⟨by omega, by rw [List.length_cons, Nat.mul_add]; omega⟩, hle]
    rw [hc, ← hdat] at hrest
    exact htook.trans (ih hcs hcharcs htook.room hrest)

/-- The record of an attribute in an answer to `FIND_INFORMATION`. -/
def infoRecord (a : Attr) : List UInt8 := le16 a.handle ++ a.type.bytes

/-- **The search for the report reference** is a search through the records. -/
theorem findRef_eq {dat : Mem} {as : List Attr} (hshort : ∀ a ∈ as, ∃ u, a.type = .short u)
    {pd : ℕ} (h : bytes (adv dat pd) (as.flatMap infoRecord).length = as.flatMap infoRecord)
    (top : ℕ) :
    (findRef dat (4 * as.length) pd top).1 = (search as).isSome ∧
      refHandle dat (4 * as.length) pd = (search as).map fun a => a.handle % 2 ^ 8 := by
  induction as generalizing pd top with
  | nil =>
    rw [findRef, refHandle, dif_neg (by simp), dif_neg (by simp)]
    exact ⟨rfl, rfl⟩
  | cons a as ih =>
    obtain ⟨⟨u, hu⟩, hshort⟩ := List.forall_mem_cons.mp hshort
    rw [List.flatMap_cons, infoRecord, hu] at h
    obtain ⟨ha, hrest⟩ := bytes_append_iff.mp h
    obtain ⟨hhandle, hbytes⟩ := bytes_append_iff.mp ha
    have htype : u16At (adv dat (pd + 2)) = u.toNat := u16At_of_bytes u.toNat_lt hbytes
    have hlow : (dat pd).toNat = a.handle % 2 ^ 8 := by
      have hlist : [adv dat pd 0, adv dat pd 1] =
        [UInt8.ofNat a.handle, UInt8.ofNat (a.handle / 2 ^ 8)] := hhandle
      have := (List.cons_eq_cons.mp hlist).1
      rw [adv, Nat.zero_add] at this
      rw [this, UInt8.toNat_ofNat']
    have hiff : ∀ v : UInt16, a.type = .short v ↔ u.toNat = v.toNat := by
      intro v
      rw [hu, Uuid.short.injEq, UInt16.toNat_inj]
    have hpos : 0 < 4 * (a :: as).length := by simp
    have hlen : 4 * (a :: as).length - 4 = 4 * as.length := by
      rw [List.length_cons]
      omega
    rw [findRef, refHandle, dif_pos hpos, dif_pos hpos, search, htype, hlen]
    have hend : (u.toNat = GATT_UUID_CHARACTER ∨ u.toNat = GATT_UUID_PRIMARY_SERVICE) ↔
        (a.type = .character ∨ a.type = .short 0x2800) :=
      or_congr (hiff 0x2803).symm (hiff 0x2800).symm
    have href : u.toNat = GATT_UUID_REPORT_REF ↔ a.type = .reportRef := (hiff 0x2908).symm
    simp only [hend, href]
    split_ifs
    · exact ⟨rfl, rfl⟩
    · exact ⟨rfl, congrArg some hlow⟩
    · exact ih hshort (show bytes (adv dat (pd + 4)) _ = _ from hrest) _

/-! ### What a server answers -/

/-- The characteristics of an answer. -/
theorem answer_chars {srv : Server} {done : List Characteristic} {c : Characteristic}
    {todo : List Characteristic} (h : srv.chars = done ++ c :: todo) :
    ∃ cs rest, c :: todo = cs ++ rest ∧ cs ≠ [] ∧
      (∀ c' ∈ cs, c'.uuid.bytes.length = c.uuid.bytes.length) ∧
      srv.answer (.readByType ((done.getLast?.map Characteristic.valueHandle).getD 1) .character) =
        0x09 :: UInt8.ofNat (record c).length :: cs.flatMap record := by
  have hfrom := Database.declarations_from h
  set start := (done.getLast?.map Characteristic.valueHandle).getD 1 with hstart
  have hrecord : (record c).length = 2 + c.declaration.value.length := List.length_append ..
  have hsize : ∀ c' : Characteristic, c'.declaration.value.length = 3 + c'.uuid.bytes.length := by
    intro c'
    rw [Characteristic.declaration, List.cons_append, List.length_cons, List.length_append]
    show 2 + _ + 1 = _
    omega
  set n := max 1 (min (srv.count (.readByType start .character))
    ((srv.mtu - 2) / (2 + c.declaration.value.length))) with hn
  set p : Characteristic → Bool := fun b =>
    b.declaration.value.length = c.declaration.value.length with hp
  refine ⟨((c :: todo).takeWhile p).take n, ((c :: todo).takeWhile p).drop n ++
    (c :: todo).dropWhile p, ?_, ?_, fun c' hc' => ?_, ?_⟩
  · rw [← List.append_assoc, List.take_append_drop, List.takeWhile_append_dropWhile]
  · rw [List.takeWhile_cons_of_pos (by simp [hp]), Ne, List.take_eq_nil_iff]
    simp
    omega
  · have := List.mem_takeWhile_imp (List.mem_of_mem_take hc')
    rw [hp, decide_eq_true_eq, hsize, hsize] at this
    omega
  · rw [Server.answer, Server.attrsFrom, show srv.attrs = srv.toDatabase.attrs from rfl, hfrom,
      List.map_cons]
    simp only
    rw [← hrecord, Server.chunk, ← List.map_cons, List.takeWhile_map, ← List.map_take,
      List.flatMap_map, hrecord]
    rfl

theorem Answered.room {pdu : List UInt8} (h : Answered pdu e f) (hroom : e.Room) : f.Room := by
  rw [Room, h.p16, h.p128, h.sizes.1, h.sizes.2]
  exact hroom

/-- An answer alone changes no table. -/
theorem Took.of_answered {g : Discovery} {pdu : List UInt8} {cs : List Characteristic}
    (h : Answered pdu e f) (hg : Took cs f g) : Took cs e g := by
  refine ⟨?_, ?_, ?_, hg.handle.trans h.handle, ?_, hg.phase.trans h.phase⟩
  · rw [hg.p16, h.p16, h.sizes.1]
  · rw [hg.p128, h.p128, h.sizes.2]
  · exact ⟨hg.sizes.1.trans h.sizes.1, hg.sizes.2.trans h.sizes.2⟩
  · rw [hg.s, h.s]

/-- **The next characteristics** are read from the answer. -/
theorem charsAnswer_took {srv : Server} {done : List Characteristic} {c : Characteristic}
    {todo : List Characteristic} (h : srv.chars = done ++ c :: todo) (hroom : e.Room)
    (hans : Answered (srv.answer (.readByType
      ((done.getLast?.map Characteristic.valueHandle).getD 1) .character)) e f) :
    ∃ cs rest, c :: todo = cs ++ rest ∧ cs ≠ [] ∧ Took cs e (charsAnswer f) := by
  obtain ⟨cs, rest, hsplit, hne, hsame, hanswer⟩ := answer_chars h
  refine ⟨cs, rest, hsplit, hne, Took.of_answered hans ?_⟩
  have hmem : ∀ c' ∈ cs, c' ∈ srv.chars := fun c' hc' => by
    rw [h, hsplit]
    simp [hc']
  have hlen : ∀ c' ∈ cs, (record c').length = 5 + c.uuid.bytes.length := fun c' hc' => by
    rw [length_record, hsame c' hc']
  have hrecordc := length_record c
  have hbody : (cs.flatMap record).length = (5 + c.uuid.bytes.length) * cs.length := by
    rw [List.length_flatMap, List.map_congr_left hlen, List.map_const', List.sum_replicate_nat,
      Nat.mul_comm]
  have hdat := hans.dat
  have hl2cap := hans.len
  rw [hanswer] at hdat hl2cap
  rw [List.length_cons, List.length_cons, hbody] at hl2cap
  obtain ⟨hop, hdat⟩ := cons_of_bytes hdat
  obtain ⟨hsize, hdat⟩ := cons_of_bytes hdat
  have hfroom : ({ f with top := max f.top 8 } : Discovery).Room := hans.room hroom
  have hshow : charsAnswer f = ({ f with top := max f.top 8 } : Discovery).readByTypeRsp := by
    rw [charsAnswer, if_neg (by rw [hop]; decide)]
  rw [hshow, readByTypeRsp]
  have hcap : ({ f with top := max f.top 8 } : Discovery).l2capLen =
      2 + (5 + c.uuid.bytes.length) * cs.length := by
    rw [Nat.add_comm 2]
    exact hl2cap
  rw [hcap]
  have htop : ∀ {g : Discovery}, Took cs { f with top := max f.top 8 } g → Took cs f g :=
    fun h => ⟨h.p16, h.p128, h.sizes, h.handle, h.s, h.phase⟩
  cases huuid : c.uuid with
  | short u =>
    have hseven : f.dat 7 = 7 := by
      rw [hsize, hrecordc, huuid]
      rfl
    rw [huuid] at hlen hsame
    have hlength : (Uuid.short u).bytes.length = 2 := rfl
    rw [hlength] at hlen hsame
    rw [if_neg (by rw [hseven]; decide), if_pos hseven, hlength]
    refine htop (charLoop_took (by simp) hlen (fun c' hc' pd e he hread => ?_) hfroom hdat)
    obtain ⟨u', hu'⟩ := Uuid.exists_short (hsame c' hc')
    exact char16_took hu' (Database.valueHandle_lt (hmem c' hc')) he hread
  | long b =>
    have htwentyone : f.dat 7 = 21 := by
      rw [hsize, hrecordc, huuid, Uuid.bytes, Vector.length_toList]
      rfl
    rw [huuid] at hlen hsame
    have hlength : (Uuid.long b).bytes.length = 16 := Vector.length_toList
    rw [hlength] at hlen hsame
    rw [if_pos htwentyone, hlength]
    refine htop (charLoop_took (by simp) hlen (fun c' hc' pd e he hread => ?_) hfroom hdat)
    obtain ⟨b', hb'⟩ := Uuid.exists_long (hsame c' hc')
    exact char128_took hb' (Database.valueHandle_lt (hmem c' hc')) he hread

/-- **No characteristic is left**: the server says so, and the reports come next. -/
theorem charsAnswer_end {srv : Server} (hans : Answered (srv.answer (.readByType
      ((srv.chars.getLast?.map Characteristic.valueHandle).getD 1) .character)) e f) :
    charsAnswer f = { f with phase := f.nextReport 0 } := by
  have hfrom := Database.declarations_from (List.append_nil srv.chars).symm
  have hdat := hans.dat
  rw [Server.answer, Server.attrsFrom, show srv.attrs = srv.toDatabase.attrs from rfl,
    hfrom] at hdat
  obtain ⟨hop, -⟩ := cons_of_bytes hdat
  rw [charsAnswer, if_pos (by rw [hop]; decide)]

/-! ### A peer that is such a server -/

theorem length_flatMap_chunk {srv : Server} {req : AttReq} {size : ℕ} {p : Attr → Bool}
    {as : List Attr} {g : Attr → List UInt8} (hg : ∀ a ∈ as, p a = true → (g a).length = size)
    (hsize : 0 < size ∧ size ≤ 21) :
    ((srv.chunk req size p as).flatMap g).length + 2 ≤ srv.mtu := by
  have hmtu := srv.mtu_bounds.1
  have hchunk : ∀ a ∈ srv.chunk req size p as, (g a).length = size := fun a ha =>
    have htake := List.mem_of_mem_take ha
    hg a ((List.takeWhile_prefix p).subset htake) (List.mem_takeWhile_imp htake)
  have hlen : (srv.chunk req size p as).length ≤ max 1 ((srv.mtu - 2) / size) := by
    refine (List.length_take_le _ _).trans ?_
    omega
  rw [List.length_flatMap, List.map_congr_left hchunk, List.map_const', List.sum_replicate_nat]
  have hdiv : (srv.mtu - 2) / size * size ≤ srv.mtu - 2 := Nat.div_mul_le_self _ _
  have hmul := Nat.mul_le_mul_right size hlen
  cases Nat.le_total 1 ((srv.mtu - 2) / size) with
  | inl hone =>
    rw [Nat.max_eq_right hone] at hmul
    omega
  | inr hone =>
    rw [Nat.max_eq_left hone] at hmul
    omega

/-- The declarations of characteristics are all that is read by type. -/
theorem type_of_asks {start : ℕ} {type : Uuid} (h : .readByType start type ∈ e.asks) :
    type = .character := by
  unfold asks at h
  cases hphase : e.phase with
  | chars =>
    rw [hphase] at h
    cases h
    rfl
  | findInfo i =>
    rw [hphase] at h
    obtain ⟨entry, -, hentry⟩ := Option.map_eq_some_iff.mp h
    cases hentry
  | readRef i =>
    rw [hphase] at h
    obtain ⟨handle, -, hhandle⟩ := Option.map_eq_some_iff.mp h
    cases hhandle
  | success =>
    rw [hphase] at h
    cases h
  | timeout =>
    rw [hphase] at h
    cases h

/-- The value of a declaration has three bytes and the UUID. -/
theorem length_declaration {srv : Server} {start : ℕ} {a : Attr}
    (h : a ∈ (srv.attrsFrom start).filter fun a => a.type = .character) :
    5 ≤ a.value.length ∧ a.value.length ≤ 19 := by
  obtain ⟨hfrom, htype⟩ := List.mem_filter.mp h
  have hmem : a ∈ srv.attrs.filter fun a => a.type = .character :=
    List.mem_filter.mpr ⟨(List.mem_filter.mp hfrom).1, htype⟩
  rw [Database.declarations_eq] at hmem
  obtain ⟨c, -, rfl⟩ := List.mem_map.mp hmem
  have hrecord := length_record c
  rw [record, List.length_append] at hrecord
  have hle : (le16 c.handle).length = 2 := rfl
  cases c.uuid.length_bytes with
  | inl huuid =>
    omega
  | inr huuid =>
    omega

/-- An answer is no longer than it may be. -/
theorem length_answer_le (srv : Server) {req : AttReq} (h : req ∈ e.asks) :
    (srv.answer req).length ≤ srv.mtu := by
  have hmtu := srv.mtu_bounds.1
  have herror : ∀ op handle code, (Server.errorRsp op handle code).length = 5 := fun _ _ _ => rfl
  cases req with
  | readByType start type =>
    obtain rfl := type_of_asks h
    rw [Server.answer]
    cases hfilter : (srv.attrsFrom start).filter (fun a => a.type = .character) with
    | nil =>
      rw [herror]
      omega
    | cons a as =>
      have ha : a ∈ (srv.attrsFrom start).filter fun a => a.type = .character := by
        rw [hfilter]
        exact List.mem_cons_self
      obtain ⟨hle, hge⟩ := length_declaration ha
      refine length_flatMap_chunk (fun b _ hb => ?_) ⟨Nat.add_pos_left Nat.two_pos _, by omega⟩
      rw [List.length_append, of_decide_eq_true hb]
      rfl
  | findInfo start =>
    rw [Server.answer]
    cases srv.attrsFrom start with
    | nil =>
      rw [herror]
      omega
    | cons a as =>
      refine length_flatMap_chunk (fun b _ hb => ?_) ⟨Nat.add_pos_left Nat.two_pos _, ?_⟩
      · rw [List.length_append, Uuid.length_of_format (of_decide_eq_true hb)]
        rfl
      · cases a.type.length_bytes with
        | inl htype =>
          omega
        | inr htype =>
          omega
  | read handle =>
    rw [Server.answer]
    cases srv.valueAt handle with
    | none =>
      rw [herror]
      omega
    | some value =>
      simp only [List.length_cons, List.length_take]
      omega

/-- A packet with `pdu`, with its type, its lengths and the channel in front. -/
def packet (connHandle : ℕ) (pdu : List UInt8) : AttPacket :=
  ⟨connHandle, buffer ([2, UInt8.ofNat (pdu.length + 4)] ++
    (le16 pdu.length ++ (le16 4 ++ pdu))) fun _ => 0⟩

theorem carries_packet (connHandle : ℕ) {pdu : List UInt8} (h : pdu.length < 2 ^ 16) :
    Carries connHandle pdu (packet connHandle pdu) := by
  have hbuf := bytes_buffer ([2, UInt8.ofNat (pdu.length + 4)] ++
    (le16 pdu.length ++ (le16 4 ++ pdu))) fun _ => 0
  obtain ⟨-, hbuf⟩ := (@bytes_append_iff _ 0 _ _).mp hbuf
  obtain ⟨hlen, hbuf⟩ := bytes_append_iff.mp hbuf
  obtain ⟨hchan, hpdu⟩ := bytes_append_iff.mp hbuf
  exact ⟨rfl, u16At_of_bytes h hlen, u16At_of_bytes (by simp) hchan, hpdu⟩

/-- The rounds in which a server answers. -/
def reply (srv : Server) (e : Discovery) : Rounds :=
  match e.asks with
  | some req => [[packet e.handle (srv.answer req)], []]
  | none => []

theorem served_reply (srv : Server) (e : Discovery) : Served srv e (reply srv e) := by
  intro req hreq
  have hlen := length_answer_le srv hreq
  have hdat : DAT_SIZE = 256 := rfl
  have hmtu := srv.mtu_bounds.2
  rw [reply, hreq]
  exact ⟨[], [], _, [], [], [], rfl, carries_packet e.handle (by omega),
    fun q hq => absurd hq List.not_mem_nil, fun q hq => absurd hq List.not_mem_nil⟩

/-- The states of a discovery that the server answers. -/
def states (srv : Server) (e₀ : Discovery) : ℕ → Discovery
  | 0 => e₀
  | n + 1 => (states srv e₀ n).step (reply srv (states srv e₀ n))

/-- **The server as a peer.** -/
def peerOf (srv : Server) (e₀ : Discovery) (n : ℕ) : Rounds := reply srv (states srv e₀ n)

end Discovery

end TcBle.Vendor
