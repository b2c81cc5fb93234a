import TcBle.Foundation.SlotTable
import TcBle.Vendor.SdpAnswers

/-!
# What the discovery finds out about a server

Against a server that follows the standard, the tables get the characteristics in the order of their
handles, whatever the server puts into each answer. A report reference is looked for in one answer
to `FIND_INFORMATION` only, and read from the handle of which the source takes the low byte.

## What is proved

* `chars_found` and `reports_found` — the run of the discovery, in its two halves.
* `discovers_iff` — the tables are right exactly when, for each report, that one answer comes to its
  report reference and the attribute with the low byte for its handle has the same value; or it does
  not, and the value is zero.
-/

namespace TcBle.Vendor

open TcBle.Foundation TcBle.HciTransport

/-- The UUID has 16 bits. -/
def Characteristic.isShort (c : Characteristic) : Bool :=
  match c.uuid with
  | .short _ => true
  | .long _ => false

/-- The UUID of 16 bits. -/
def Characteristic.uuid16 (c : Characteristic) : ℕ :=
  match c.uuid with
  | .short u => u.toNat
  | .long _ => 0

namespace Server

variable (srv : Server)

/-- What the answer to a request for the descriptors of a report lists. -/
def listed (c : Characteristic) : List Attr :=
  srv.chunk (.findInfo c.valueHandle) 4 (fun b => format b.type = 1) (srv.attrsFrom c.valueHandle)

/-- The two bytes at the start of an answer to `READ`. A value that is too short leaves those of the
answer before: the format 1, and the low byte of the handle of the value. -/
def readWord (c : Characteristic) : Option (List UInt8) → ℕ
  | some v => (v.getD 0 1).toNat + (v.getD 1 (UInt8.ofNat c.valueHandle)).toNat * 2 ^ 8
  | none => 0

/-- The value of a report reference. -/
def refWord (d : Attr) : ℕ := (d.value.getD 0 0).toNat + (d.value.getD 1 0).toNat * 2 ^ 8

/-- What the discovery takes for the report reference. -/
def refFound (c : Characteristic) : ℕ :=
  match search (srv.listed c) with
  | some d => readWord c (srv.valueAt (d.handle % 2 ^ 8))
  | none => 0

/-- The report reference is listed and the attribute with the low byte for its handle is read as it,
or it is not listed and is zero. -/
def Tells (c : Characteristic) : Prop :=
  ∀ d ∈ c.reference,
    if d ∈ srv.listed c then readWord c (srv.valueAt (d.handle % 2 ^ 8)) = refWord d
    else refWord d = 0

instance (c : Characteristic) : Decidable (srv.Tells c) :=
  inferInstanceAs (Decidable (∀ d ∈ c.reference, ite _ _ _))

/-- The characteristics that go to `p16`. -/
def shorts (n16 : ℕ) : List Characteristic := (srv.chars.filter Characteristic.isShort).take n16

end Server

/-- The entry of `p16`, with the report reference `r`. -/
def Characteristic.toEntry (r : Characteristic → ℕ) (c : Characteristic) : AttDbUuid16 :=
  ⟨c.property, c.valueHandle, c.uuid16, if c.uuid = .hidReport then r c else 0⟩

/-- The value of the report reference, if there is one. -/
def Characteristic.refValue (c : Characteristic) : ℕ := (c.reference.map Server.refWord).getD 0

namespace Discovery

/-- **What the discovery is for.** -/
structure Discovered (srv : Server) (n16 n128 : ℕ) (e : Discovery) : Prop where
  /-- It has returned. -/
  phase : e.phase = .success
  /-- The characteristics with a UUID of 16 bits, with their report references. -/
  p16 : e.p16 = (srv.shorts n16).map (Characteristic.toEntry Characteristic.refValue)
  /-- The others. -/
  p128 : e.p128 = (srv.chars.filterMap entry128).take n128

variable {srv : Server} {n16 n128 : ℕ} {e f : Discovery}

/-! ### The characteristics -/

theorem filterMap_entry16 (cs : List Characteristic) :
    cs.filterMap entry16 =
      (cs.filter Characteristic.isShort).map (Characteristic.toEntry fun _ => 0) := by
  induction cs with
  | nil => rfl
  | cons c cs ih =>
    cases huuid : c.uuid with
    | short u =>
      have hshort : c.isShort = true := by rw [Characteristic.isShort, huuid]
      have hentry : entry16 c = some (c.toEntry fun _ => 0) := by
        rw [entry16, huuid, Characteristic.toEntry, Characteristic.uuid16, huuid, ite_self]
      rw [List.filterMap_cons_some hentry, List.filter_cons_of_pos hshort, List.map_cons, ih]
    | long b =>
      have hlong : ¬c.isShort = true := by simp [Characteristic.isShort, huuid]
      have hentry : entry16 c = none := by rw [entry16, huuid]
      rw [List.filterMap_cons_none hentry, List.filter_cons_of_neg hlong, ih]

/-- The state of the discovery between two reports: those before entry `i` have their references. -/
structure Stage (srv : Server) (n16 n128 i : ℕ) (e : Discovery) : Prop where
  /-- The entries of `p16`. -/
  p16 : ∀ k : ℕ, e.p16[k]? = (srv.shorts n16)[k]?.map
    (Characteristic.toEntry fun c => if k < i then srv.refFound c else 0)
  /-- The entries of `p128`. -/
  p128 : e.p128 = (srv.chars.filterMap entry128).take n128
  /-- The connection. -/
  handle : e.handle < 2 ^ 16

/-- The peer is the server, from the start of the discovery on. -/
def ServedBy (srv : Server) (peer : ℕ → Rounds) (e : Discovery) : Prop :=
  ∀ n, Served srv (after peer e n) (peer n)

theorem after_peerOf (srv : Server) (e₀ : Discovery) (n : ℕ) :
    after (peerOf srv e₀) e₀ n = states srv e₀ n := by
  induction n with
  | zero => rfl
  | succ n ih =>
    rw [after, ih]
    rfl

theorem servedBy_peerOf (srv : Server) (e₀ : Discovery) : ServedBy srv (peerOf srv e₀) e₀ := by
  intro n
  rw [after_peerOf]
  exact served_reply srv _

/-- One step, whose answer is delivered. -/
theorem step_of_served {rounds : Rounds} {req : AttReq} (hhandle : e.handle < 2 ^ 16)
    (hserved : Served srv e rounds) (hasks : e.asks = some req)
    (answer : Discovery → Discovery) (hstep : e.step rounds = e.ask req.op answer rounds) :
    ∃ f, e.step rounds = answer f ∧ Answered (srv.answer req) e f := by
  rw [hstep]
  exact ask_of_delivered hhandle (hserved req hasks)

/-- The characteristics behind those that are found already are found as well. -/
theorem chars_took {peer : ℕ → Rounds} {e₀ : Discovery} (hinit : e₀.phase = .chars) (hs : e₀.s = 1)
    (hhandle : e₀.handle < 2 ^ 16) (hserved : ServedBy srv peer e₀) (n : ℕ)
    {todo done : List Characteristic} {N : ℕ} (hlen : todo.length = n)
    (hsplit : srv.chars = done ++ todo) (htook : Took done e₀ (after peer e₀ N)) :
    ∃ M f, after peer e₀ M = { f with phase := f.nextReport 0 } ∧ Took srv.chars e₀ f := by
  -- each answer has one more of them at least
  induction n using Nat.strong_induction_on generalizing todo done N with
  | _ n ih =>
    have hphase := htook.phase.trans hinit
    have hstart : (after peer e₀ N).s =
        (done.getLast?.map Characteristic.valueHandle).getD 1 := by rw [htook.s, hs]
    have hasks : (after peer e₀ N).asks = some (.readByType
        ((done.getLast?.map Characteristic.valueHandle).getD 1) .character) := by
      rw [asks, hphase, ← hstart]
    obtain ⟨f, hstep, hans⟩ := step_of_served (htook.handle.symm ▸ hhandle) (hserved N) hasks
      charsAnswer (by rw [step, hphase]; rfl)
    cases todo with
    | nil =>
      rw [List.append_nil] at hsplit
      rw [← hsplit] at hans htook
      refine ⟨N + 1, f, hstep.trans (charsAnswer_end hans), ?_⟩
      have hsame := htook.trans (Took.of_answered hans (Took.nil (hans.room htook.room)))
      rwa [List.append_nil] at hsame
    | cons c todo =>
      obtain ⟨cs, rest, hcs, hne, htook'⟩ := charsAnswer_took hsplit htook.room hans
      have hshorter : rest.length < n := by
        have hlength := congrArg List.length hcs
        rw [List.length_append, hlen] at hlength
        have := List.length_pos_iff.mpr hne
        omega
      have hnext : Took (done ++ cs) e₀ (after peer e₀ (N + 1)) := by
        rw [after, hstep]
        exact htook.trans htook'
      refine ih rest.length hshorter rfl ?_ hnext
      rw [hsplit, hcs, List.append_assoc]

/-- **The characteristics are found**, whatever the server puts into each answer. -/
theorem chars_found {peer : ℕ → Rounds} {e₀ : Discovery} (hinit : e₀.phase = .chars) (hs : e₀.s = 1)
    (hempty : e₀.p16 = [] ∧ e₀.p128 = []) (hhandle : e₀.handle < 2 ^ 16)
    (hserved : ServedBy srv peer e₀) :
    ∃ N, (after peer e₀ N).phase = (after peer e₀ N).nextReport 0 ∧
      Stage srv e₀.n16 e₀.n128 0 (after peer e₀ N) := by
  have hroom : e₀.Room := by
    rw [Room, hempty.1, hempty.2]
    exact ⟨Nat.zero_le _, Nat.zero_le _⟩
  have hstart : Took [] e₀ (after peer e₀ 0) := Took.nil hroom
  obtain ⟨M, f, hM, htook⟩ := chars_took hinit hs hhandle hserved _ rfl rfl hstart
  refine ⟨M, ?_, ?_⟩
  · rw [hM]
    rfl
  · rw [hM]
    refine ⟨fun k => ?_, ?_, ?_⟩
    · show f.p16[k]? = _
      rw [htook.p16, hempty.1, List.nil_append, filterMap_entry16, ← List.map_take,
        List.getElem?_map]
      simp only [Nat.not_lt_zero, if_false]
      rfl
    · show f.p128 = _
      rw [htook.p128, hempty.2, List.nil_append]
    · show f.handle < _
      rw [htook.handle]
      exact hhandle

/-! ### The reports -/

theorem Stage.uuids {i : ℕ} (h : Stage srv n16 n128 i e) :
    e.p16.map AttDbUuid16.uuid = (srv.shorts n16).map Characteristic.uuid16 := by
  refine List.ext_getElem? fun k => ?_
  rw [List.getElem?_map, List.getElem?_map, h.p16 k, Option.map_map]
  rfl

/-- Which report is next depends on the UUIDs only. -/
theorem nextReport_congr (i : ℕ) (h : e.p16.map AttDbUuid16.uuid = f.p16.map AttDbUuid16.uuid) :
    e.nextReport i = f.nextReport i := by
  have hlen : e.p16.length = f.p16.length := by
    rw [← List.length_map AttDbUuid16.uuid, h, List.length_map]
  have hget : ∀ j : ℕ, e.p16[j]?.map AttDbUuid16.uuid = f.p16[j]?.map AttDbUuid16.uuid := by
    intro j
    rw [← List.getElem?_map, h, List.getElem?_map]
  simp only [nextReport, hlen, hget]

/-- A characteristic with a UUID of 16 bits is a report if its UUID says so. -/
theorem uuid_eq_hidReport_iff {c : Characteristic} (hc : c.isShort = true) :
    c.uuid16 = CHARACTERISTIC_UUID_HID_REPORT ↔ c.uuid = .hidReport := by
  cases huuid : c.uuid with
  | short u =>
    rw [Characteristic.uuid16, huuid, Uuid.hidReport, Uuid.short.injEq, ← UInt16.toNat_inj]
    rfl
  | long b => simp [Characteristic.isShort, huuid] at hc

theorem isShort_of_getElem? {k : ℕ} {c : Characteristic} (h : (srv.shorts n16)[k]? = some c) :
    c.isShort = true :=
  (List.mem_filter.mp (List.mem_of_mem_take (List.mem_of_getElem? h))).2

/-- Entries that are no reports have their references. -/
theorem Stage.mono {i j : ℕ} (h : Stage srv n16 n128 i e) (hij : i ≤ j)
    (hnone : ∀ (k : ℕ) (c : Characteristic), i ≤ k → k < j → (srv.shorts n16)[k]? = some c →
      c.uuid ≠ .hidReport) :
    Stage srv n16 n128 j e := by
  refine ⟨fun k => ?_, h.p128, h.handle⟩
  rw [h.p16 k]
  cases hc : (srv.shorts n16)[k]? with
  | none => rfl
  | some c =>
    rw [Option.map_some, Option.map_some, Characteristic.toEntry, Characteristic.toEntry]
    by_cases hreport : c.uuid = .hidReport
    · have hiff : k < i ↔ k < j :=
        ⟨fun hk => by omega, fun hk => not_le.mp fun hik => hnone k c hik hk hc hreport⟩
      simp only [hiff]
    · rw [if_neg hreport, if_neg hreport]

/-- **The next report**, or none. -/
theorem Stage.next {i : ℕ} (h : Stage srv n16 n128 i e) (hi : i ≤ (srv.shorts n16).length) :
    (e.nextReport i = .success ∧ Stage srv n16 n128 (srv.shorts n16).length e) ∨
      ∃ (j : ℕ) (c : Characteristic), i ≤ j ∧ (srv.shorts n16)[j]? = some c ∧ c.uuid = .hidReport ∧
        e.nextReport i = .findInfo j ∧ Stage srv n16 n128 j e := by
  have hget : ∀ k : ℕ, e.p16[k]?.map AttDbUuid16.uuid =
      (srv.shorts n16)[k]?.map Characteristic.uuid16 := by
    intro k
    rw [← List.getElem?_map, h.uuids, List.getElem?_map]
  have hlen : e.p16.length = (srv.shorts n16).length := by
    rw [← List.length_map AttDbUuid16.uuid, h.uuids, List.length_map]
  have hreport : ∀ (k : ℕ) (c : Characteristic), (srv.shorts n16)[k]? = some c →
      (e.p16[k]?.map AttDbUuid16.uuid = some CHARACTERISTIC_UUID_HID_REPORT ↔
        c.uuid = .hidReport) := by
    intro k c hc
    rw [hget k, hc, Option.map_some, Option.some.injEq]
    exact uuid_eq_hidReport_iff (isShort_of_getElem? hc)
  have hnext : e.nextReport i = (firstIn (fun x => x = some CHARACTERISTIC_UUID_HID_REPORT)
      (fun k => e.p16[k]?.map AttDbUuid16.uuid) i (e.p16.length - i)).elim .success .findInfo := by
    rw [nextReport]
    split <;> rename_i hfind <;>
      exact (congrArg (fun o : Option ℕ => o.elim SdpPhase.success .findInfo) hfind).symm
  rw [hnext]
  cases hfind : firstIn (fun x => x = some CHARACTERISTIC_UUID_HID_REPORT)
      (fun k => e.p16[k]?.map AttDbUuid16.uuid) i (e.p16.length - i) with
  | none =>
    refine Or.inl ⟨rfl, h.mono hi fun k c hik hk hc => ?_⟩
    exact fun huuid => firstIn_eq_none_iff.mp hfind k hik (by omega) ((hreport k c hc).mpr huuid)
  | some j =>
    obtain ⟨huuid, ⟨hij, hj⟩, hfirst⟩ := firstIn_eq_some_iff.mp hfind
    have hlt : j < (srv.shorts n16).length := by omega
    refine Or.inr ⟨j, (srv.shorts n16)[j], hij, List.getElem?_eq_getElem hlt,
      (hreport j _ (List.getElem?_eq_getElem hlt)).mp huuid, rfl,
      h.mono hij fun k c hik hk hc => ?_⟩
    exact fun hreportk => hfirst k hik hk ((hreport k c hc).mpr hreportk)

/-! ### One report -/

theorem mem_chars_of_mem_shorts {c : Characteristic} (h : c ∈ srv.shorts n16) : c ∈ srv.chars :=
  (List.mem_filter.mp (List.mem_of_mem_take h)).1

/-- The answer to a request for the descriptors of a report. -/
theorem answer_findInfo {c : Characteristic} (hc : c ∈ srv.chars) (hreport : c.uuid = .hidReport) :
    srv.answer (.findInfo c.valueHandle) = 0x05 :: 0x01 :: (srv.listed c).flatMap infoRecord ∧
      (∀ a ∈ srv.listed c, ∃ u, a.type = .short u) ∧ (srv.listed c).head? = some c.valueAttr ∧
      srv.listed c <+: srv.attrsFrom c.valueHandle := by
  obtain ⟨post, hfrom, -⟩ := Database.attrs_from_value hc
  have hattrs : srv.attrsFrom c.valueHandle = c.valueAttr :: (c.descs ++ post) := hfrom
  have htype : c.valueAttr.type = .hidReport := hreport
  have hformat : Server.format c.valueAttr.type = 1 := by
    rw [htype]
    rfl
  have hlength : 2 + c.valueAttr.type.bytes.length = 4 := by
    rw [htype]
    rfl
  refine ⟨?_, fun a ha => ?_, ?_, ?_⟩
  · rw [Server.answer, Server.listed, hattrs]
    simp only [hformat, hlength]
    rfl
  · have hshort := List.mem_takeWhile_imp (List.mem_of_mem_take ha)
    rw [decide_eq_true_eq] at hshort
    cases hu : a.type with
    | short u => exact ⟨u, rfl⟩
    | long b =>
      rw [hu] at hshort
      cases hshort
  · rw [Server.listed, Server.chunk, hattrs, List.takeWhile_cons, hformat, List.head?_take,
      if_neg (by omega)]
    rfl
  · exact (List.take_prefix _ _).trans (List.takeWhile_prefix _)

/-- Entry `j` gets its reference. -/
theorem Stage.succ {j : ℕ} {c : Characteristic} (h : Stage srv n16 n128 j e)
    (hc : (srv.shorts n16)[j]? = some c) (hj : f.p16[j]? = some (c.toEntry srv.refFound))
    (hother : ∀ k : ℕ, k ≠ j → f.p16[k]? = e.p16[k]?) (hp128 : f.p128 = e.p128)
    (hhandle : f.handle = e.handle) : Stage srv n16 n128 (j + 1) f := by
  refine ⟨fun k => ?_, hp128.trans h.p128, hhandle ▸ h.handle⟩
  by_cases hk : k = j
  · rw [hk, hj, hc, Option.map_some]
    simp only [Nat.lt_succ_self, if_true]
  · rw [hother k hk, h.p16 k]
    have hiff : k < j ↔ k < j + 1 := by omega
    simp only [hiff]

/-- An answer leaves the tables alone. -/
theorem Stage.of_answered {i : ℕ} {pdu : List UInt8} (h : Stage srv n16 n128 i e)
    (hans : Answered pdu e f) : Stage srv n16 n128 i f := by
  refine ⟨fun k => ?_, hans.p128.trans h.p128, ?_⟩
  · rw [hans.p16]
    exact h.p16 k
  · rw [hans.handle]
    exact h.handle

/-- Entry `j` has its reference already when that is zero. -/
theorem Stage.skip {j : ℕ} {c : Characteristic} (h : Stage srv n16 n128 j e)
    (hc : (srv.shorts n16)[j]? = some c) (hzero : srv.refFound c = 0) :
    Stage srv n16 n128 (j + 1) e := by
  refine h.succ hc ?_ (fun k _ => rfl) rfl rfl
  rw [h.p16 j, hc, Option.map_some, Characteristic.toEntry, Characteristic.toEntry, hzero,
    if_neg (lt_irrefl j)]

/-- What is received of the descriptors of a report. -/
theorem listed_of_answered {c : Characteristic} (hc : c ∈ srv.chars) (hreport : c.uuid = .hidReport)
    (hans : Answered (srv.answer (.findInfo c.valueHandle)) e f) :
    (f.dat 6 = 0x05 ∧ f.dat 7 = 1 ∧ f.dat 8 = UInt8.ofNat c.valueHandle) ∧
      f.l2capLen - 2 = 4 * (srv.listed c).length ∧
      bytes (adv f.dat 8) ((srv.listed c).flatMap infoRecord).length =
        (srv.listed c).flatMap infoRecord := by
  obtain ⟨hanswer, hshort, hhead, -⟩ := answer_findInfo hc hreport
  have hdat := hans.dat
  have hlen := hans.len
  rw [hanswer] at hdat hlen
  obtain ⟨hop, hdat⟩ := cons_of_bytes hdat
  obtain ⟨hone, hdat⟩ := cons_of_bytes hdat
  refine ⟨⟨hop, hone, ?_⟩, ?_, hdat⟩
  · obtain ⟨as, has⟩ := List.head?_eq_some_iff.mp hhead
    rw [has, List.flatMap_cons, infoRecord, le16, List.cons_append, List.cons_append] at hdat
    exact (cons_of_bytes hdat).1
  · have hrecord : ∀ a ∈ srv.listed c, (infoRecord a).length = 4 := by
      intro a ha
      obtain ⟨u, hu⟩ := hshort a ha
      rw [infoRecord, hu]
      rfl
    rw [hlen, List.length_cons, List.length_cons, List.length_flatMap,
      List.map_congr_left hrecord, List.map_const', List.sum_replicate_nat]
    omega

/-- **The request for the descriptors of a report.** -/
theorem Stage.findInfo {j : ℕ} {c : Characteristic} (h : Stage srv n16 n128 j e)
    (hphase : e.phase = .findInfo j) (hc : (srv.shorts n16)[j]? = some c)
    (hreport : c.uuid = .hidReport) {rounds : Rounds} (hserved : Served srv e rounds) :
    (Stage srv n16 n128 (j + 1) (e.step rounds) ∧
        (e.step rounds).phase = (e.step rounds).nextReport (j + 1)) ∨
      ∃ d, search (srv.listed c) = some d ∧ Stage srv n16 n128 j (e.step rounds) ∧
        (e.step rounds).phase = .readRef j ∧
        (e.step rounds).asks = some (.read (d.handle % 2 ^ 8)) ∧ (e.step rounds).dat 7 = 1 ∧
        (e.step rounds).dat 8 = UInt8.ofNat c.valueHandle := by
  have hasks : e.asks = some (.findInfo c.valueHandle) := by
    rw [asks, hphase]
    simp only
    rw [h.p16 j, hc, Option.map_some]
    rfl
  obtain ⟨f, hstep, hans⟩ := step_of_served h.handle hserved hasks (findInfoAnswer j)
    (by rw [step, hphase]; rfl)
  have hmem := mem_chars_of_mem_shorts (List.mem_of_getElem? hc)
  obtain ⟨⟨hop, hone, hlow⟩, hcap, hdat⟩ := listed_of_answered hmem hreport hans
  obtain ⟨hfound, hhandle⟩ :=
    findRef_eq (answer_findInfo hmem hreport).2.1 hdat (max f.top 8)
  have hf := h.of_answered hans
  rw [hstep, findInfoAnswer, if_pos ⟨hop, hone⟩]
  simp only [hcap]
  cases hsearch : search (srv.listed c) with
  | none =>
    left
    rw [hsearch] at hfound
    have hnot : ¬(findRef f.dat (4 * (srv.listed c).length) 8 (max f.top 8)).1 = true := by
      rw [show (findRef f.dat (4 * (srv.listed c).length) 8 (max f.top 8)).1 = _ from hfound]
      decide
    have hskip := hf.skip hc (by rw [Server.refFound, hsearch])
    refine ⟨⟨hskip.p16, hskip.p128, hskip.handle⟩, ?_⟩
    rw [if_neg hnot]
    rfl
  | some d =>
    right
    rw [hsearch] at hfound hhandle
    have hyes : (findRef f.dat (4 * (srv.listed c).length) 8 (max f.top 8)).1 = true := hfound
    refine ⟨d, rfl, ⟨hf.p16, hf.p128, hf.handle⟩, if_pos hyes, ?_, hone, hlow⟩
    rw [asks]
    simp only [hyes, if_true]
    show (refHandle f.dat (f.l2capLen - 2) 8).map _ = _
    rw [hcap, show refHandle f.dat _ 8 = _ from hhandle]
    rfl

/-- The two bytes at the start of an answer to `READ`, where those of the answer before are left if
it is too short. -/
theorem word_of_answer {mtu : ℕ} (hmtu : 23 ≤ mtu) {c : Characteristic} {v : List UInt8}
    (hone : e.dat 7 = 1) (hlow : e.dat 8 = UInt8.ofNat c.valueHandle)
    (hbody : bytes (adv f.dat 7) (v.take (mtu - 1)).length = v.take (mtu - 1))
    (hbehind : ∀ i, 7 ≤ i → (0x0B :: v.take (mtu - 1)).length + 6 ≤ i → f.dat i = e.dat i) :
    u16At (adv f.dat 7) = Server.readWord c (some v) := by
  obtain ⟨k, hk⟩ : ∃ k, mtu - 1 = k + 2 := ⟨mtu - 3, by omega⟩
  rw [hk] at hbody hbehind
  have hword : u16At (adv f.dat 7) = (f.dat 7).toNat + (f.dat 8).toNat * 2 ^ 8 := rfl
  rw [hword, Server.readWord]
  match v with
  | [] =>
    rw [hbehind 7 (le_refl _) (le_refl _), hbehind 8 (by simp) (by simp), hone, hlow]
    rfl
  | [a] =>
    rw [(cons_of_bytes hbody).1, hbehind 8 (by simp) (by simp), hlow]
    rfl
  | a :: b :: v =>
    obtain ⟨ha, hrest⟩ := cons_of_bytes hbody
    rw [ha, (cons_of_bytes hrest).1]
    rfl

/-- **The request for a report reference.** -/
theorem Stage.readRef {j : ℕ} {c : Characteristic} {d : Attr} (h : Stage srv n16 n128 j e)
    (hphase : e.phase = .readRef j) (hc : (srv.shorts n16)[j]? = some c)
    (hreport : c.uuid = .hidReport) (hsearch : search (srv.listed c) = some d)
    (hasks : e.asks = some (.read (d.handle % 2 ^ 8))) (hone : e.dat 7 = 1)
    (hlow : e.dat 8 = UInt8.ofNat c.valueHandle) {rounds : Rounds} (hserved : Served srv e rounds) :
    Stage srv n16 n128 (j + 1) (e.step rounds) ∧
      (e.step rounds).phase = (e.step rounds).nextReport (j + 1) := by
  obtain ⟨f, hstep, hans⟩ := step_of_served h.handle hserved hasks (readRefAnswer j)
    (by rw [step, hphase]; rfl)
  have hf := h.of_answered hans
  have hfound : srv.refFound c = Server.readWord c (srv.valueAt (d.handle % 2 ^ 8)) := by
    rw [Server.refFound, hsearch]
  have hdat := hans.dat
  have hbehind := hans.behind
  rw [hstep, readRefAnswer]
  rw [Server.answer] at hdat hbehind
  cases hvalue : srv.valueAt (d.handle % 2 ^ 8) with
  | none =>
    rw [hvalue] at hdat hfound
    obtain ⟨hop, -⟩ := cons_of_bytes hdat
    rw [if_neg (by rw [hop]; decide)]
    have hskip := hf.skip hc hfound
    exact ⟨⟨hskip.p16, hskip.p128, hskip.handle⟩, rfl⟩
  | some v =>
    rw [hvalue] at hdat hbehind hfound
    simp only at hdat hbehind
    obtain ⟨hop, hbody⟩ := cons_of_bytes hdat
    have hword : u16At (adv f.dat 7) = srv.refFound c := by
      rw [hfound]
      exact word_of_answer srv.mtu_bounds.1 hone hlow hbody hbehind
    have hset : Stage srv n16 n128 (j + 1) { f with
        top := max f.top 9
        p16 := f.p16.modify j fun entry => { entry with ref := u16At (adv f.dat 7) }
        phase := f.nextReport (j + 1) } := by
      refine hf.succ hc ?_ (fun k hk => ?_) rfl rfl
      · simp only [List.getElem?_modify, hf.p16 j, hc, hword, if_true, Option.map_eq_map,
          Option.map_some]
        rw [Characteristic.toEntry, Characteristic.toEntry, if_pos hreport, if_pos hreport]
      · simp only [List.getElem?_modify, if_neg (Ne.symm hk), Option.map_eq_map,
          Option.map_id_fun', id]
    rw [if_pos (show f.dat 6 = ATT_OP_READ_RSP from hop)]
    exact ⟨hset, nextReport_congr (j + 1) (hf.uuids.trans hset.uuids.symm)⟩

/-! ### Runs -/

/-- **The report references are read**, one after the other. -/
theorem reports_found {peer : ℕ → Rounds} {e₀ : Discovery} (hserved : ServedBy srv peer e₀)
    (m : ℕ) {i N : ℕ} (hi : i + m = (srv.shorts n16).length)
    (hphase : (after peer e₀ N).phase = (after peer e₀ N).nextReport i)
    (hstage : Stage srv n16 n128 i (after peer e₀ N)) :
    ∃ M, (after peer e₀ M).phase = .success ∧
      Stage srv n16 n128 (srv.shorts n16).length (after peer e₀ M) := by
  induction m using Nat.strong_induction_on generalizing i N with
  | _ m ih =>
    rcases hstage.next (by omega) with ⟨hnext, hdone⟩ | ⟨j, c, hij, hc, hreport, hnext, hj⟩
    · exact ⟨N, hphase.trans hnext, hdone⟩
    · have hlt : j < (srv.shorts n16).length := (List.getElem?_eq_some_iff.mp hc).1
      rcases hj.findInfo (hphase.trans hnext) hc hreport (hserved N) with ⟨hstage', hphase'⟩ |
        ⟨d, hsearch, hstage', hphase', hasks, hone, hlow⟩
      · exact ih ((srv.shorts n16).length - (j + 1)) (by omega) (by omega)
          (N := N + 1) hphase' hstage'
      · obtain ⟨hstage'', hphase''⟩ := Stage.readRef (e := after peer e₀ (N + 1)) hstage' hphase' hc
          hreport hsearch hasks hone hlow (hserved (N + 1))
        exact ih ((srv.shorts n16).length - (j + 1)) (by omega) (by omega)
          (N := N + 2) hphase'' hstage''

/-- A discovery that has returned stays so. -/
theorem after_of_success {peer : ℕ → Rounds} {e₀ : Discovery} {M : ℕ}
    (h : (after peer e₀ M).phase = .success) (N : ℕ) :
    after peer e₀ (M + N) = after peer e₀ M := by
  induction N with
  | zero => rfl
  | succ N ih =>
    rw [← Nat.add_assoc, after, ih, step, h]

/-- The tables at the end. -/
theorem Stage.p16_eq (h : Stage srv n16 n128 (srv.shorts n16).length e) :
    e.p16 = (srv.shorts n16).map (Characteristic.toEntry srv.refFound) := by
  refine List.ext_getElem? fun k => ?_
  rw [h.p16 k, List.getElem?_map]
  cases hc : (srv.shorts n16)[k]? with
  | none => rfl
  | some c =>
    simp only [(List.getElem?_eq_some_iff.mp hc).1, if_true]

/-- **What the discovery finds** of a server. -/
theorem success_of_served {handle : ℕ} (hhandle : handle < 2 ^ 16) (n16 n128 : ℕ) (dat : Mem)
    {peer : ℕ → Rounds} (hserved : ServedBy srv peer (init handle n16 n128 dat)) :
    ∃ M, (after peer (init handle n16 n128 dat) M).phase = .success ∧
      (after peer (init handle n16 n128 dat) M).p16 =
        (srv.shorts n16).map (Characteristic.toEntry srv.refFound) ∧
      (after peer (init handle n16 n128 dat) M).p128 =
        (srv.chars.filterMap entry128).take n128 := by
  obtain ⟨N, hphase, hstage⟩ := chars_found rfl rfl ⟨rfl, rfl⟩ hhandle hserved
  obtain ⟨M, hsuccess, hdone⟩ :=
    reports_found hserved (srv.shorts n16).length (Nat.zero_add _) hphase hstage
  exact ⟨M, hsuccess, hdone.p16_eq, hdone.p128⟩

/-- What is taken for the report reference is its value exactly when the server tells so. -/
theorem refFound_eq_iff {c : Characteristic} (hc : c ∈ srv.chars) (hreport : c.uuid = .hidReport) :
    srv.refFound c = c.refValue ↔ srv.Tells c := by
  obtain ⟨-, -, -, rest, hlisted⟩ := answer_findInfo hc hreport
  have hsearch : search (srv.listed c ++ rest) = c.reference := by
    rw [hlisted]
    exact Database.search_eq hc hreport
  cases href : c.reference with
  | none =>
    have hnone : search (srv.listed c) = none := by
      by_contra hsome
      obtain ⟨a, ha⟩ := Option.ne_none_iff_exists'.mp hsome
      rw [search_append ha, href] at hsearch
      cases hsearch
    rw [Server.refFound, hnone, Characteristic.refValue, href, Server.Tells, href]
    exact iff_of_true rfl fun d hd => by cases hd
  | some d =>
    rw [href] at hsearch
    have hvalue : c.refValue = Server.refWord d := by rw [Characteristic.refValue, href]; rfl
    have htells : srv.Tells c ↔ if d ∈ srv.listed c then
        Server.readWord c (srv.valueAt (d.handle % 2 ^ 8)) = Server.refWord d
        else Server.refWord d = 0 := by
      rw [Server.Tells, href]
      simp only [Option.mem_def, Option.some.injEq, forall_eq']
    rw [htells, hvalue, Server.refFound]
    cases hfound : search (srv.listed c) with
    | none =>
      rw [if_neg (notMem_of_search hfound hsearch)]
      exact eq_comm
    | some a =>
      rw [search_append hfound, Option.some.injEq] at hsearch
      rw [hsearch] at hfound ⊢
      rw [if_pos (mem_of_search hfound)]

/-- Where the tables are right, every report tells its report reference. -/
theorem Discovered.tells {handle : ℕ} (hhandle : handle < 2 ^ 16) {dat : Mem}
    {peer : ℕ → Rounds} (hserved : ServedBy srv peer (init handle n16 n128 dat)) {N : ℕ}
    (h : Discovered srv n16 n128 (after peer (init handle n16 n128 dat) N)) :
    ∀ c ∈ srv.shorts n16, c.uuid = .hidReport → srv.Tells c := by
  obtain ⟨M, hsuccess, hp16, -⟩ := success_of_served hhandle n16 n128 dat hserved
  have hsame : after peer (init handle n16 n128 dat) N =
      after peer (init handle n16 n128 dat) M := by
    cases Nat.le_total N M with
    | inl hle =>
      obtain ⟨k, rfl⟩ := Nat.exists_eq_add_of_le hle
      exact (after_of_success h.phase k).symm
    | inr hle =>
      obtain ⟨k, rfl⟩ := Nat.exists_eq_add_of_le hle
      exact after_of_success hsuccess k
  have hright := h.p16
  rw [hsame, hp16, List.map_inj_left] at hright
  intro c hc hreport
  have hentry := congrArg AttDbUuid16.ref (hright c hc)
  rw [Characteristic.toEntry, Characteristic.toEntry, if_pos hreport, if_pos hreport] at hentry
  exact (refFound_eq_iff (mem_chars_of_mem_shorts hc) hreport).mp hentry

/-- **What the discovery finds is right**, against every server that follows the standard, exactly
when every report in the table tells its report reference. -/
theorem discovers_iff (srv : Server) (handle n16 n128 : ℕ) (hhandle : handle < 2 ^ 16) (dat : Mem)
    (peer : ℕ → Rounds) (hserved : ServedBy srv peer (init handle n16 n128 dat)) :
    (∃ N, Discovered srv n16 n128 (after peer (init handle n16 n128 dat) N)) ↔
      ∀ c ∈ srv.shorts n16, c.uuid = .hidReport → srv.Tells c := by
  constructor
  · rintro ⟨N, hdiscovered⟩
    exact hdiscovered.tells hhandle hserved
  · intro htells
    obtain ⟨M, hsuccess, hp16, hp128⟩ := success_of_served hhandle n16 n128 dat hserved
    refine ⟨M, hsuccess, ?_, hp128⟩
    rw [hp16, List.map_inj_left]
    intro c hc
    rw [Characteristic.toEntry, Characteristic.toEntry]
    by_cases hreport : c.uuid = .hidReport
    · rw [if_pos hreport, if_pos hreport,
        (refFound_eq_iff (mem_chars_of_mem_shorts hc) hreport).mpr (htells c hc hreport)]
    · rw [if_neg hreport, if_neg hreport]

/-! ### A report reference with a large handle -/

/-- A service with a report, whose report reference has the handle `h`. -/
def reportDatabase (h : ℕ) (hlo : 3 < h) (hhi : h < 2 ^ 16) : Database where
  services := [⟨[⟨1, .short 0x2800, [0x12, 0x18]⟩],
    [⟨2, 0x1A, 3, .hidReport, [], [⟨h, .reportRef, [1, 1]⟩]⟩]⟩]
  sorted := by
    simp [Service.attrs, Characteristic.attrs, Characteristic.declaration, Characteristic.valueAttr]
    exact ⟨Nat.lt_of_le_of_lt (by decide) hlo, Nat.lt_of_le_of_lt (by decide) hlo, hlo⟩
  bound := by
    simp [Service.attrs, Characteristic.attrs, Characteristic.declaration, Characteristic.valueAttr]
    exact ⟨Nat.zero_lt_of_lt hlo, hhi⟩
  headings := by simp
  values := by
    simp
    decide
  descs := by
    simp
    decide
  references := by
    simp [Characteristic.reference]

/-- A server of it, with answers as long as they may be. -/
def reportServer (h : ℕ) (hlo : 3 < h) (hhi : h < 2 ^ 16) : Server where
  toDatabase := reportDatabase h hlo hhi
  mtu := 23
  mtu_bounds := by decide
  count := fun _ => 10
  refused := fun _ => false
  readable := fun _ _ _ _ => rfl

/-- The report reference at 4 is found. -/
theorem reportServer_discovered :
    ∃ N, Discovered (reportServer 4 (by decide) (by decide)) 8 8
      (after (peerOf (reportServer 4 (by decide) (by decide)) (init 0 8 8 fun _ => 0))
        (init 0 8 8 fun _ => 0) N) := by
  refine (discovers_iff _ 0 8 8 (by decide) (fun _ => 0) _ (servedBy_peerOf _ _)).mpr ?_
  decide

/-- **The report reference at 260 is not**: what is read is the attribute at 4. -/
theorem reportServer_lost :
    ¬∀ (srv : Server) (handle n16 n128 : ℕ) (dat : Mem) (peer : ℕ → Rounds), handle < 2 ^ 16 →
      ServedBy srv peer (init handle n16 n128 dat) →
        ∃ N, Discovered srv n16 n128 (after peer (init handle n16 n128 dat) N) := by
  intro hall
  have hserved := servedBy_peerOf (reportServer 260 (by decide) (by decide)) (init 0 8 8 fun _ => 0)
  obtain ⟨N, hdiscovered⟩ := hall _ 0 8 8 (fun _ => 0) _ (by decide) hserved
  have htells := hdiscovered.tells (by decide) hserved
  revert htells
  decide

end Discovery

end TcBle.Vendor
