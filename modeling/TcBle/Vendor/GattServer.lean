import TcBle.Vendor.SdpDiscoveryBounds
import Mathlib.Data.List.Basic
import Mathlib.Data.List.Flatten

/-!
# A peer that follows the standard

The attributes of a server in the order of their handles: services, each with its declaration and
the services it includes first, then its characteristics, each with its declaration, its value and
its descriptors. A server answers the requests of the discovery with as many records as it likes,
but one at least, all of one size, as long as they fit its MTU.

## What is proved

* `Database.declarations_eq` — the attributes with the type of a characteristic are the
  declarations of the characteristics.
* `Database.search_eq` — a search behind the value of a report finds the report reference of its own
  characteristic, or none.
-/

namespace TcBle.Vendor

open TcBle.HciTransport

/-- The bytes of a 16-bit value. -/
def le16 (x : ℕ) : List UInt8 := [UInt8.ofNat x, UInt8.ofNat (x / 2 ^ 8)]

/-- The UUID of an attribute. -/
inductive Uuid where
  /-- A UUID of 16 bits. -/
  | short (u : UInt16)
  /-- A UUID of 128 bits. -/
  | long (b : Vector UInt8 16)
  deriving DecidableEq

namespace Uuid

/-- Its bytes. -/
def bytes : Uuid → List UInt8
  | short u => le16 u.toNat
  | long b => b.toList

/-- The types that make the structure of a server: services, the services they include and
characteristics. -/
def Declares (u : Uuid) : Prop := ∃ t ∈ [0x2800, 0x2801, 0x2802, 0x2803], u = short t

instance (u : Uuid) : Decidable u.Declares := inferInstanceAs (Decidable (∃ t ∈ _, _))

/-- `GATT_UUID_CHARACTER`. -/
def character : Uuid := short 0x2803

/-- `GATT_UUID_REPORT_REF`. -/
def reportRef : Uuid := short 0x2908

/-- `CHARACTERISTIC_UUID_HID_REPORT`. -/
def hidReport : Uuid := short 0x2A4D

end Uuid

/-- An attribute. -/
structure Attr where
  /-- Its handle. -/
  handle : ℕ
  /-- Its type. -/
  type : Uuid
  /-- Its value. -/
  value : List UInt8
  deriving DecidableEq

/-- A characteristic. -/
structure Characteristic where
  /-- The handle of its declaration. -/
  handle : ℕ
  /-- Its properties. -/
  property : UInt8
  /-- The handle of its value. -/
  valueHandle : ℕ
  /-- Its UUID. -/
  uuid : Uuid
  /-- Its value. -/
  value : List UInt8
  /-- Its descriptors. -/
  descs : List Attr

namespace Characteristic

/-- The declaration. -/
def declaration (c : Characteristic) : Attr :=
  ⟨c.handle, .character, c.property :: le16 c.valueHandle ++ c.uuid.bytes⟩

/-- The attribute of the value. -/
def valueAttr (c : Characteristic) : Attr := ⟨c.valueHandle, c.uuid, c.value⟩

/-- The attributes. -/
def attrs (c : Characteristic) : List Attr := c.declaration :: c.valueAttr :: c.descs

/-- The report reference. -/
def reference (c : Characteristic) : Option Attr := c.descs.find? fun d => d.type = .reportRef

end Characteristic

/-- A service. -/
structure Service where
  /-- Its declaration, and the services it includes. -/
  heading : List Attr
  /-- Its characteristics. -/
  chars : List Characteristic

/-- The attributes. -/
def Service.attrs (s : Service) : List Attr :=
  s.heading ++ s.chars.flatMap Characteristic.attrs

/-- The attributes of a server. -/
structure Database where
  /-- The services. -/
  services : List Service
  /-- The attributes are in the order of their handles. -/
  sorted : (services.flatMap Service.attrs).Pairwise fun a b => a.handle < b.handle
  /-- A handle has 16 bits and is not 0. -/
  bound : ∀ a ∈ services.flatMap Service.attrs, 0 < a.handle ∧ a.handle < 2 ^ 16
  /-- The declaration of a service, and the services it includes. -/
  headings : ∀ s ∈ services, ∀ a ∈ s.heading,
    a.type = .short 0x2800 ∨ a.type = .short 0x2801 ∨ a.type = .short 0x2802
  /-- A value is not taken for a declaration. -/
  values : ∀ s ∈ services, ∀ c ∈ s.chars, ¬c.uuid.Declares
  /-- Nor is a descriptor. -/
  descs : ∀ s ∈ services, ∀ c ∈ s.chars, ∀ d ∈ c.descs, ¬d.type.Declares
  /-- A report reference is of two bytes. -/
  references : ∀ s ∈ services, ∀ c ∈ s.chars, ∀ d ∈ c.reference, d.value.length = 2

namespace Database

variable (db : Database)

/-- The attributes, in the order of their handles. -/
def attrs : List Attr := db.services.flatMap Service.attrs

/-- The characteristics, in the order of their handles. -/
def chars : List Characteristic := db.services.flatMap Service.chars

end Database

/-! ### A search behind a value -/

/-- The first report reference before the next characteristic or primary service. -/
def search : List Attr → Option Attr
  | [] => none
  | a :: as =>
    if a.type = .character ∨ a.type = .short 0x2800 then none
    else if a.type = .reportRef then some a
    else search as

/-- What is found in the first attributes is found in all of them. -/
theorem search_append {as bs : List Attr} {a : Attr} (h : search as = some a) :
    search (as ++ bs) = some a := by
  induction as with
  | nil => cases h
  | cons b as ih =>
    rw [List.cons_append, search]
    rw [search] at h
    split_ifs at h ⊢ with hend href
    · exact h
    · exact ih h

theorem search_type {as : List Attr} {a : Attr} (h : search as = some a) :
    a.type = .reportRef := by
  induction as with
  | nil => cases h
  | cons b as ih =>
    rw [search] at h
    split_ifs at h with hend href
    · rw [← Option.some.inj h]
      exact href
    · exact ih h

theorem mem_of_search {as : List Attr} {a : Attr} (h : search as = some a) : a ∈ as := by
  induction as with
  | nil => cases h
  | cons b as ih =>
    rw [search] at h
    split_ifs at h with hend href
    · rw [Option.some.inj h]
      exact List.mem_cons_self
    · exact List.mem_cons_of_mem _ (ih h)

/-- What is found behind the first attributes is none of them. -/
theorem notMem_of_search {as bs : List Attr} {a : Attr} (has : search as = none)
    (h : search (as ++ bs) = some a) : a ∉ as := by
  induction as with
  | nil => exact List.not_mem_nil
  | cons b as ih =>
    rw [search] at has
    rw [List.cons_append, search] at h
    split_ifs at has h with hend href
    · intro ha
      rcases List.mem_cons.mp ha with rfl | ha
      · have hfound : a.type = .reportRef := search_type h
        exact href hfound
      · exact ih has h ha

theorem search_descs {ds as : List Attr} (hds : ∀ d ∈ ds, ¬d.type.Declares)
    (has : search as = none) : search (ds ++ as) = ds.find? fun d => d.type = .reportRef := by
  induction ds with
  | nil => exact has
  | cons d ds ih =>
    obtain ⟨hd, hds⟩ := List.forall_mem_cons.mp hds
    have hne : ¬(d.type = .character ∨ d.type = .short 0x2800) := by
      rintro (htype | htype)
      · exact hd ⟨0x2803, by simp, htype⟩
      · exact hd ⟨0x2800, by simp, htype⟩
    rw [List.cons_append, search, if_neg hne, List.find?_cons]
    by_cases href : d.type = .reportRef
    · simp [href]
    · simp [href, ih hds]

theorem search_chars (c : Characteristic) (as : List Attr) : search (c.attrs ++ as) = none :=
  if_pos (Or.inl rfl)

theorem search_heading {heading as : List Attr}
    (h : ∀ a ∈ heading,
      a.type = .short 0x2800 ∨ a.type = .short 0x2801 ∨ a.type = .short 0x2802)
    (has : search as = none) : search (heading ++ as) = none := by
  induction heading with
  | nil => exact has
  | cons a heading ih =>
    obtain ⟨ha, hrest⟩ := List.forall_mem_cons.mp h
    have hne : a.type ≠ .reportRef := by
      rcases ha with ha | ha | ha
      · rw [ha]
        decide
      · rw [ha]
        decide
      · rw [ha]
        decide
    rw [List.cons_append, search, if_neg hne]
    split_ifs
    · rfl
    · exact ih hrest

namespace Database

variable {db : Database}

/-- A search from a service on finds nothing. -/
theorem search_services {ss : List Service} (h : ∀ s ∈ ss, s ∈ db.services) :
    search (ss.flatMap Service.attrs) = none := by
  induction ss with
  | nil => rfl
  | cons s ss ih =>
    obtain ⟨hs, hss⟩ := List.forall_mem_cons.mp h
    rw [List.flatMap_cons, Service.attrs, List.append_assoc]
    refine search_heading (db.headings s hs) ?_
    cases s.chars with
    | nil => exact ih hss
    | cons c cs =>
      rw [List.flatMap_cons, List.append_assoc]
      exact search_chars c _

/-- **Where a characteristic is**: behind its attributes a search finds nothing. -/
theorem exists_attrs_eq {c : Characteristic} (hc : c ∈ db.chars) :
    ∃ pre post, db.attrs = pre ++ (c.attrs ++ post) ∧ search post = none := by
  obtain ⟨s, hs, hcs⟩ := List.mem_flatMap.mp hc
  obtain ⟨ss, ss', hsplit⟩ := List.append_of_mem hs
  obtain ⟨cs, cs', hsplit'⟩ := List.append_of_mem hcs
  have hmem : ∀ s' ∈ ss', s' ∈ db.services := by
    intro s' hs'
    rw [hsplit]
    exact List.mem_append_right _ (List.mem_cons_of_mem _ hs')
  have hlater : search (ss'.flatMap Service.attrs) = none := search_services hmem
  refine ⟨ss.flatMap Service.attrs ++ (s.heading ++ cs.flatMap Characteristic.attrs),
    cs'.flatMap Characteristic.attrs ++ ss'.flatMap Service.attrs, ?_, ?_⟩
  · rw [attrs, hsplit, List.flatMap_append, List.flatMap_cons, Service.attrs, hsplit',
      List.flatMap_append, List.flatMap_cons]
    simp only [List.append_assoc]
  · cases cs' with
    | nil => exact hlater
    | cons c' cs' =>
      rw [List.flatMap_cons, List.append_assoc]
      exact search_chars c' _

theorem mem_attrs {c : Characteristic} {a : Attr} (hc : c ∈ db.chars) (ha : a ∈ c.attrs) :
    a ∈ db.attrs := by
  obtain ⟨pre, post, hattrs, -⟩ := exists_attrs_eq hc
  rw [hattrs]
  exact List.mem_append_right _ (List.mem_append_left _ ha)

/-- The attributes from a value on. -/
theorem attrs_from_value {c : Characteristic} (hc : c ∈ db.chars) :
    ∃ post, (db.attrs.filter fun a => c.valueHandle ≤ a.handle) = c.valueAttr :: c.descs ++ post ∧
      search post = none := by
  obtain ⟨pre, post, hattrs, hpost⟩ := exists_attrs_eq hc
  have hsorted : db.attrs.Pairwise fun a b => a.handle < b.handle := db.sorted
  rw [hattrs, Characteristic.attrs, List.pairwise_append] at hsorted
  obtain ⟨-, hchar, hpre⟩ := hsorted
  rw [List.cons_append, List.cons_append, List.pairwise_cons, List.pairwise_cons] at hchar
  obtain ⟨hdecl, hvalue, -⟩ := hchar
  refine ⟨post, ?_, hpost⟩
  have hbefore : pre.filter (fun a => c.valueHandle ≤ a.handle) = [] := by
    refine List.filter_eq_nil_iff.mpr fun a ha => ?_
    have := hpre a ha c.valueAttr (by simp)
    simp only [decide_eq_true_eq, not_le]
    exact this
  have hafter : (c.descs ++ post).filter (fun a => c.valueHandle ≤ a.handle) = c.descs ++ post := by
    refine List.filter_eq_self.mpr fun a ha => ?_
    have := hvalue a ha
    simp only [decide_eq_true_eq]
    exact le_of_lt this
  have hself : c.handle < c.valueHandle := hdecl c.valueAttr (by simp)
  rw [hattrs, List.filter_append, hbefore, Characteristic.attrs, List.cons_append,
    List.cons_append, List.filter_cons_of_neg, List.filter_cons_of_pos, hafter]
  · rfl
  · simp [Characteristic.valueAttr]
  · rw [decide_eq_true_eq]
    exact not_le.mpr hself

/-- **A search behind the value of a report** finds the report reference of its own characteristic,
or none. -/
theorem search_eq {c : Characteristic} (hc : c ∈ db.chars) (hreport : c.uuid = .hidReport) :
    search (db.attrs.filter fun a => c.valueHandle ≤ a.handle) = c.reference := by
  obtain ⟨post, hfrom, hpost⟩ := attrs_from_value hc
  obtain ⟨s, hs, hcs⟩ := List.mem_flatMap.mp hc
  have htype : c.valueAttr.type = .hidReport := hreport
  rw [hfrom, List.cons_append, search, htype, if_neg (by decide), if_neg (by decide),
    search_descs (db.descs s hs c hcs) hpost]
  rfl

/-! ### The declarations -/

theorem filter_attrs {s : Service} (hs : s ∈ db.services) {c : Characteristic} (hc : c ∈ s.chars) :
    (c.attrs.filter fun a => a.type = .character) = [c.declaration] := by
  have hplain : ∀ u : Uuid, ¬u.Declares → u ≠ .character := by
    rintro u hu rfl
    exact hu ⟨0x2803, by simp, rfl⟩
  rw [Characteristic.attrs, List.filter_cons_of_pos, List.filter_cons_of_neg,
    List.filter_eq_nil_iff.mpr]
  · intro d hd
    simpa using hplain d.type (db.descs s hs c hc d hd)
  · simpa using show c.valueAttr.type ≠ _ from hplain c.uuid (db.values s hs c hc)
  · simp [Characteristic.declaration]

/-- **The attributes with the type of a characteristic** are the declarations. -/
theorem declarations_eq (db : Database) :
    (db.attrs.filter fun a => a.type = .character) = db.chars.map Characteristic.declaration := by
  have hservice : ∀ s ∈ db.services, (s.attrs.filter fun a => a.type = .character) =
      s.chars.map Characteristic.declaration := by
    intro s hs
    have hheading : (s.heading.filter fun a => a.type = .character) = [] := by
      refine List.filter_eq_nil_iff.mpr fun a ha => ?_
      rcases db.headings s hs a ha with htype | htype | htype
      · rw [htype]
        decide
      · rw [htype]
        decide
      · rw [htype]
        decide
    rw [Service.attrs, List.filter_append, hheading, List.nil_append, List.filter_flatMap,
      List.map_eq_flatMap]
    exact List.flatMap_congr fun c hc => filter_attrs hs hc
  rw [attrs, List.filter_flatMap, chars, List.map_flatMap]
  exact List.flatMap_congr hservice

/-- A characteristic is declared before its value, and its value stands before the next one. -/
theorem chars_sorted (db : Database) :
    (∀ c ∈ db.chars, c.handle < c.valueHandle) ∧
      db.chars.Pairwise fun c c' => c.valueHandle < c'.handle := by
  have hsub : (db.chars.flatMap Characteristic.attrs).Sublist db.attrs := by
    rw [chars, List.flatMap_assoc, attrs]
    exact List.Sublist.flatMap_right _ fun s _ => List.sublist_append_right _ _
  have hsorted := List.Pairwise.sublist hsub (show db.attrs.Pairwise _ from db.sorted)
  obtain ⟨hown, hcross⟩ := List.pairwise_flatMap.mp hsorted
  refine ⟨fun c hc => ?_, hcross.imp fun {c c'} hlt => ?_⟩
  · exact List.rel_of_pairwise_cons (hown c hc) (List.mem_cons_self (a := c.valueAttr))
  · exact hlt c.valueAttr (List.mem_cons_of_mem _ List.mem_cons_self) c'.declaration
      List.mem_cons_self

/-- **The characteristics from the last one's value on** are those that are left. -/
theorem declarations_from {db : Database} {done todo : List Characteristic}
    (h : db.chars = done ++ todo) :
    ((db.attrs.filter fun a =>
        (done.getLast?.map Characteristic.valueHandle).getD 1 ≤ a.handle).filter
      fun a => a.type = .character) = todo.map Characteristic.declaration := by
  obtain ⟨hown, hsorted⟩ := db.chars_sorted
  rw [h] at hown hsorted
  obtain ⟨hdone, -, hcross⟩ := List.pairwise_append.mp hsorted
  have hpos : ∀ c ∈ todo, 1 ≤ c.handle := fun c hc =>
    (db.bound c.declaration (mem_attrs (by rw [h]; simp [hc]) List.mem_cons_self)).1
  have hstart : (∀ c ∈ done, c.handle < (done.getLast?.map Characteristic.valueHandle).getD 1) ∧
      ∀ c ∈ todo, (done.getLast?.map Characteristic.valueHandle).getD 1 ≤ c.handle := by
    cases done using List.reverseRecOn with
    | nil => exact ⟨fun c hc => absurd hc List.not_mem_nil, hpos⟩
    | append_singleton done l =>
      rw [List.getLast?_concat]
      obtain ⟨-, -, hlast⟩ := List.pairwise_append.mp hdone
      refine ⟨fun c hc => ?_, fun c hc => le_of_lt (hcross l (by simp) c hc)⟩
      have hl := hown l (by simp)
      cases List.mem_append.mp hc with
      | inl hc =>
        exact lt_trans (hown c (by simp [hc])) (lt_trans (hlast c hc l (by simp)) hl)
      | inr hc =>
        rw [List.mem_singleton.mp hc]
        exact hl
  rw [List.filter_comm, declarations_eq, List.filter_map, h, List.filter_append, List.map_append]
  have hnone : done.filter ((fun a : Attr => decide
      ((done.getLast?.map Characteristic.valueHandle).getD 1 ≤ a.handle)) ∘
        Characteristic.declaration) = [] := by
    refine List.filter_eq_nil_iff.mpr fun c hc => ?_
    rw [Function.comp_apply, decide_eq_true_eq]
    exact not_le.mpr (hstart.1 c hc)
  have hall : todo.filter ((fun a : Attr => decide
      ((done.getLast?.map Characteristic.valueHandle).getD 1 ≤ a.handle)) ∘
        Characteristic.declaration) = todo := by
    refine List.filter_eq_self.mpr fun c hc => ?_
    exact decide_eq_true (hstart.2 c hc)
  rw [hnone, hall]
  rfl

/-- The handle of a value has 16 bits. -/
theorem valueHandle_lt {db : Database} {c : Characteristic} (hc : c ∈ db.chars) :
    c.valueHandle < 2 ^ 16 := by
  exact (db.bound c.valueAttr
    (mem_attrs hc (List.mem_cons_of_mem _ List.mem_cons_self))).2

end Database

/-- A request of the discovery. -/
inductive AttReq where
  /-- `READ_BY_TYPE`, from a handle on. -/
  | readByType (start : ℕ) (type : Uuid)
  /-- `FIND_INFORMATION`, from a handle on. -/
  | findInfo (start : ℕ)
  /-- `READ`. -/
  | read (handle : ℕ)

/-- A server. -/
structure Server extends Database where
  /-- The longest answer. -/
  mtu : ℕ
  /-- It is no less than the smallest one that is allowed, and no more than `dat` is made for. -/
  mtu_bounds : 23 ≤ mtu ∧ mtu + 6 ≤ Discovery.DAT_SIZE
  /-- How many records it would like to put into an answer. -/
  count : AttReq → ℕ
  /-- The attributes that may not be read. -/
  refused : ℕ → Bool
  /-- A report reference may be read. -/
  readable : ∀ c ∈ toDatabase.chars, ∀ d ∈ c.reference, refused d.handle = false

namespace Server

variable (srv : Server)

/-- An `ERROR_RSP`. -/
def errorRsp (op : UInt8) (handle : ℕ) (code : UInt8) : List UInt8 :=
  0x01 :: op :: le16 handle ++ [code]

/-- The first records of a list, of `size` bytes each, that go into one answer. -/
def chunk (req : AttReq) (size : ℕ) (p : Attr → Bool) (as : List Attr) : List Attr :=
  (as.takeWhile p).take (max 1 (min (srv.count req) ((srv.mtu - 2) / size)))

/-- The attributes from a handle on. -/
def attrsFrom (start : ℕ) : List Attr := srv.attrs.filter fun a => start ≤ a.handle

/-- The value of an attribute that may be read. -/
def valueAt (handle : ℕ) : Option (List UInt8) :=
  ((srv.attrs.find? fun a => a.handle = handle).filter fun a =>
    !srv.refused a.handle).map Attr.value

/-- The format of an answer to `FIND_INFORMATION`. -/
def format : Uuid → UInt8
  | .short _ => 1
  | .long _ => 2

/-- **The answers.** -/
def answer : AttReq → List UInt8
  | .readByType start type =>
    match (srv.attrsFrom start).filter fun a => a.type = type with
    | [] => errorRsp 0x08 start 0x0A
    | a :: as => 0x09 :: UInt8.ofNat (2 + a.value.length) ::
      (srv.chunk (.readByType start type) (2 + a.value.length)
        (fun b => b.value.length = a.value.length) (a :: as)).flatMap
        fun b => le16 b.handle ++ b.value
  | .findInfo start =>
    match srv.attrsFrom start with
    | [] => errorRsp 0x04 start 0x0A
    | a :: as => 0x05 :: format a.type ::
      (srv.chunk (.findInfo start) (2 + a.type.bytes.length)
        (fun b => format b.type = format a.type) (a :: as)).flatMap
        fun b => le16 b.handle ++ b.type.bytes
  | .read handle =>
    match srv.valueAt handle with
    | none => errorRsp 0x0A handle 0x02
    | some value => 0x0B :: value.take (srv.mtu - 1)

end Server

end TcBle.Vendor
