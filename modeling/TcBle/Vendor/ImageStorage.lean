import TcBle.Foundation.Run
import TcBle.HciTransport.Common

/-!
# The images of the shelf label

The images are kept in one array, an image after the other, with a length for each. The callbacks of
the object transfer service look the object up in `objectIds`, whose index is the number of the
image. Bytes are read through `buf_temp`, not past the length of the image; bytes are written
anywhere in the image, and a write that truncates sets the length to where it ends.

## What is proved

* `step_cases` — what a request can do.
* `entries_step`, `imageData_step` — a request sets the length and the bytes it says, and no others.
* `images_refine` — after every run of requests each image is the array of the bytes that were last
  written to it, and reads give them.
-/

namespace TcBle.Vendor

open TcBle.Foundation.Run TcBle.HciTransport

/-- The six bytes of `blc_ots_object_id_t`. -/
abbrev ObjectId := BitVec 48

/-- `OTSS_L2CAP_MTU`, the size of `buf_temp`. -/
def OTSS_L2CAP_MTU : ℕ := 0x80

/-- `BLC_OTS_OACP_WRITE_MODE_TRUNCATE`. -/
def BLC_OTS_OACP_WRITE_MODE_TRUNCATE : UInt8 := 0x02

/-- What the application is built with, and the identifiers it got from the service. -/
structure ImageConfig where
  /-- `APP_IMAGE_STORAGE_MAX_IMAGES`. -/
  maxImages : ℕ
  /-- `APP_IMAGE_STORAGE_MAX_IMAGE_SIZE`. -/
  maxImageSize : ℕ
  /-- `objectIds`. -/
  objectIds : ℕ → ObjectId
  /-- The number is a `u8`, -/
  maxImages_lt : maxImages < 2 ^ 8
  /-- and the size is a `u32`. -/
  maxImageSize_lt : maxImageSize < 2 ^ 32

/-- The number of the image with the identifier: the first that has it. -/
def ImageConfig.imageOf (c : ImageConfig) (id : ObjectId) : Option ℕ :=
  (List.range c.maxImages).find? fun i => c.objectIds i = id

/-- The state of the storage, and the buffer of `ots_read_cb`. -/
structure ImageStorage where
  /-- `app_image_storage_initialized`. -/
  initialized : Bool
  /-- `num_images`. -/
  numImages : ℕ
  /-- `image_max_size`. -/
  imageMaxSize : ℕ
  /-- `length` of the entries. -/
  entries : ℕ → ℕ
  /-- `image_data`. -/
  imageData : Mem
  /-- `buf_temp`. -/
  bufTemp : Mem

/-- A call of one of the callbacks. -/
inductive OtsRequest where
  /-- `ots_read_cb`. -/
  | read (id : ObjectId) (offset length : UInt16)
  /-- `ots_write_cb`. -/
  | write (id : ObjectId) (mode : UInt8) (offset length : UInt16) (data : Mem)

namespace ImageStorage

variable (c : ImageConfig) (s : ImageStorage)

/-- `app_image_storage_init`. -/
def appImageStorageInit : ImageStorage :=
  if s.initialized then s
  else
    { s with
      imageMaxSize := c.maxImageSize
      numImages := c.maxImages
      entries := fun i => if i < c.maxImages then 0 else s.entries i
      initialized := true }

/-- `app_image_storage_get_max_image_length`. -/
def getMaxImageLength : ℕ := if s.initialized then s.imageMaxSize else 0

/-- `app_image_storage_get_image_length`. -/
def getImageLength (imageIdx : ℕ) : Option ℕ :=
  if s.initialized = false ∨ s.numImages ≤ imageIdx then none else some (s.entries imageIdx)

/-- `app_image_storage_get_image_data`: what `buffer` holds then, and what is returned. -/
def getImageData (imageIdx offset length : ℕ) (buffer : Mem) : Mem × ℕ :=
  match s.getImageLength imageIdx with
  | none => (buffer, 0)
  | some imageLength =>
    if imageLength ≤ offset then (buffer, 0)
    else
      let length :=
        if imageLength < (offset + length) % 2 ^ 32 then imageLength - offset else length
      (memcpy buffer 0 (bytes (adv s.imageData (imageIdx * c.maxImageSize + offset)) length),
        length)

/-- `app_image_storage_update_image_info`. -/
def updateImageInfo (imageIdx length : ℕ) : ImageStorage × Bool :=
  if s.initialized = false ∨ s.numImages ≤ imageIdx then (s, false)
  else if s.getMaxImageLength < length then (s, false)
  else ({ s with entries := Function.update s.entries imageIdx length }, true)

/-- `app_image_storage_image_write`, which does not look at `truncate`. -/
def imageWrite (imageIdx length offset : ℕ) (data : Mem) (_truncate : Bool) : ImageStorage × ℕ :=
  if s.initialized = false ∨ s.numImages ≤ imageIdx then (s, 0)
  else if s.getMaxImageLength < (offset + length) % 2 ^ 32 then (s, 0)
  else
    ({ s with
        imageData := memcpy s.imageData (imageIdx * c.maxImageSize + offset) (bytes data length) },
      length)

/-- `ots_read_cb`, with what it returns. The bytes are those of `buf_temp`. -/
def otsReadCb (id : ObjectId) (offset length : UInt16) : ImageStorage × ℕ :=
  match c.imageOf id with
  | none => (s, 0)
  | some i =>
    let ret := s.getImageData c i offset.toNat (min length.toNat OTSS_L2CAP_MTU) s.bufTemp
    ({ s with bufTemp := ret.1 }, ret.2 % 2 ^ 16)

/-- `ots_write_cb`, with what it returns. -/
def otsWriteCb (id : ObjectId) (mode : UInt8) (offset length : UInt16) (data : Mem) :
    ImageStorage × ℕ :=
  match c.imageOf id with
  | none => (s, 0)
  | some i =>
    let truncate := decide (mode &&& BLC_OTS_OACP_WRITE_MODE_TRUNCATE ≠ 0)
    let ret := s.imageWrite c i length.toNat offset.toNat data truncate
    let s := if truncate then (ret.1.updateImageInfo i (offset.toNat + length.toNat)).1 else ret.1
    (s, ret.2 % 2 ^ 16)

/-- A call. -/
def step : OtsRequest → ImageStorage
  | .read id offset length => (s.otsReadCb c id offset length).1
  | .write id mode offset length data => (s.otsWriteCb c id mode offset length data).1

/-- The storage after `app_image_storage_init`, with what the array and the buffer hold then. -/
def boot (imageData bufTemp : Mem) : ImageStorage :=
  appImageStorageInit c ⟨false, 0, 0, fun _ => 0, imageData, bufTemp⟩

end ImageStorage

/-! ### What a request says -/

namespace OtsRequest

variable (c : ImageConfig)

/-- A write finds the image, and its bytes are in it. -/
def Fits (id : ObjectId) (offset length : UInt16) (i : ℕ) : Prop :=
  c.imageOf id = some i ∧ offset.toNat + length.toNat ≤ c.maxImageSize

instance (id : ObjectId) (offset length : UInt16) (i : ℕ) : Decidable (Fits c id offset length i) :=
  inferInstanceAs (Decidable (_ ∧ _))

variable {c} in
/-- A write fits one image at most. -/
theorem Fits.iff_eq {id : ObjectId} {offset length : UInt16} {w : ℕ}
    (h : Fits c id offset length w) {i : ℕ} : Fits c id offset length i ↔ i = w := by
  constructor
  · intro hi
    exact Option.some.inj (hi.1.symm.trans h.1)
  · rintro rfl
    exact h

/-- The byte it writes at `pos` of image `i`. -/
def byteAt (i pos : ℕ) : OtsRequest → Option UInt8
  | .read .. => none
  | .write id _ offset length data =>
    if Fits c id offset length i ∧ offset.toNat ≤ pos ∧ pos < offset.toNat + length.toNat then
      some (data (pos - offset.toNat))
    else none

/-- The length it gives to image `i`. -/
def lengthOf (i : ℕ) : OtsRequest → Option ℕ
  | .read .. => none
  | .write id mode offset length _ =>
    if Fits c id offset length i ∧ mode &&& BLC_OTS_OACP_WRITE_MODE_TRUNCATE ≠ 0 then
      some (offset.toNat + length.toNat)
    else none

end OtsRequest

namespace ImageStorage

open OtsRequest

variable {c : ImageConfig} {s : ImageStorage}

/-- The storage is as it was made, and no image is longer than its room. -/
structure Made (c : ImageConfig) (s : ImageStorage) : Prop where
  initialized : s.initialized = true
  numImages : s.numImages = c.maxImages
  imageMaxSize : s.imageMaxSize = c.maxImageSize
  entries_le : ∀ i, s.entries i ≤ c.maxImageSize

theorem made_boot (imageData bufTemp : Mem) : Made c (boot c imageData bufTemp) :=
  ⟨rfl, rfl, rfl, fun i => by simp [boot, appImageStorageInit]⟩

/-- What is in the array and the buffer does not matter. -/
theorem Made.withData (h : Made c s) (imageData bufTemp : Mem) :
    Made c { s with imageData := imageData, bufTemp := bufTemp } :=
  ⟨h.initialized, h.numImages, h.imageMaxSize, h.entries_le⟩

theorem imageOf_lt {id : ObjectId} {i : ℕ} (h : c.imageOf id = some i) : i < c.maxImages :=
  List.mem_range.mp (List.mem_of_find?_eq_some h)

theorem Made.getImageLength_eq (h : Made c s) {i : ℕ} (hi : i < c.maxImages) :
    s.getImageLength i = some (s.entries i) :=
  if_neg (by simp [h.initialized, h.numImages, hi])

theorem Made.getMaxImageLength_eq (h : Made c s) : s.getMaxImageLength = c.maxImageSize := by
  rw [getMaxImageLength, if_pos h.initialized, h.imageMaxSize]

/-- **What is read**: as many of the bytes from the offset on as the image has and are asked for. -/
theorem Made.getImageData_eq (h : Made c s) {i offset length : ℕ} (hi : i < c.maxImages)
    (hroom : offset + length < 2 ^ 32) (buffer : Mem) :
    s.getImageData c i offset length buffer =
      (memcpy buffer 0 (bytes (adv s.imageData (i * c.maxImageSize + offset))
        (min length (s.entries i - offset))), min length (s.entries i - offset)) := by
  rw [getImageData, h.getImageLength_eq hi]
  by_cases hpast : s.entries i ≤ offset
  · simp only [if_pos hpast, Nat.sub_eq_zero_of_le hpast, Nat.min_zero, bytes_zero, memcpy_nil]
  · have hlen : (if s.entries i < (offset + length) % 2 ^ 32 then s.entries i - offset else length)
        = min length (s.entries i - offset) := by
      rw [Nat.mod_eq_of_lt hroom]
      split <;> omega
    simp only [if_neg hpast, hlen]

/-- **What is written**: all the bytes, when they are in the image, and nothing else. -/
theorem Made.imageWrite_eq (h : Made c s) {i length offset : ℕ} (hi : i < c.maxImages)
    (hroom : offset + length < 2 ^ 32) (data : Mem) (truncate : Bool) :
    s.imageWrite c i length offset data truncate =
      if offset + length ≤ c.maxImageSize then
        ({ s with
            imageData := memcpy s.imageData (i * c.maxImageSize + offset) (bytes data length) },
          length)
      else (s, 0) := by
  rw [imageWrite, if_neg (by simp [h.initialized, h.numImages, hi]), h.getMaxImageLength_eq,
    Nat.mod_eq_of_lt hroom]
  split <;> split <;> first | rfl | omega

/-- The length is set when it is not above that of the array. -/
theorem Made.updateImageInfo_eq (h : Made c s) {i length : ℕ} (hi : i < c.maxImages)
    (hlen : length ≤ c.maxImageSize) :
    (s.updateImageInfo i length).1 =
      { s with entries := Function.update s.entries i length } := by
  rw [updateImageInfo, if_neg (by simp [h.initialized, h.numImages, hi]), h.getMaxImageLength_eq,
    if_neg (not_lt.mpr hlen)]

/-- A length above it is refused. -/
theorem Made.updateImageInfo_of_lt (h : Made c s) {length : ℕ} (hlen : c.maxImageSize < length)
    (i : ℕ) : (s.updateImageInfo i length).1 = s := by
  unfold updateImageInfo
  rw [h.getMaxImageLength_eq, if_pos hlen]
  split <;> rfl

/-! ### The callbacks -/

section Callbacks

variable (h : Made c s) (id : ObjectId) (offset length : UInt16)
include h

/-- **A read** of an image. -/
theorem Made.otsReadCb_eq {i : ℕ} (hi : c.imageOf id = some i) :
    s.otsReadCb c id offset length =
      ({ s with
          bufTemp := memcpy s.bufTemp 0
            (bytes (adv s.imageData (i * c.maxImageSize + offset.toNat))
              (min (min length.toNat OTSS_L2CAP_MTU) (s.entries i - offset.toNat))) },
        min (min length.toNat OTSS_L2CAP_MTU) (s.entries i - offset.toNat)) := by
  have hoff := offset.toNat_lt
  have hlen := length.toNat_lt
  rw [otsReadCb, hi]
  simp only
  rw [h.getImageData_eq (imageOf_lt hi) (by omega), Nat.mod_eq_of_lt (by omega)]

/-- **A write** that fits. -/
theorem Made.otsWriteCb_eq {i : ℕ} (hfits : Fits c id offset length i) (mode : UInt8)
    (data : Mem) :
    s.otsWriteCb c id mode offset length data =
      ({ s with
          imageData := memcpy s.imageData (i * c.maxImageSize + offset.toNat)
            (bytes data length.toNat)
          entries := if mode &&& BLC_OTS_OACP_WRITE_MODE_TRUNCATE ≠ 0 then
              Function.update s.entries i (offset.toNat + length.toNat)
            else s.entries }, length.toNat) := by
  have hoff := offset.toNat_lt
  have hlen := length.toNat_lt
  have hi := imageOf_lt hfits.1
  rw [otsWriteCb, hfits.1]
  simp only
  rw [h.imageWrite_eq hi (by omega), if_pos hfits.2, Nat.mod_eq_of_lt (by omega)]
  by_cases hmode : mode &&& BLC_OTS_OACP_WRITE_MODE_TRUNCATE ≠ 0
  · rw [if_pos (decide_eq_true hmode), if_pos hmode,
      (h.withData _ _).updateImageInfo_eq hi hfits.2]
  · rw [if_neg (by simpa using hmode), if_neg hmode]

/-- **A write that does not fit** changes nothing, not even the length. -/
theorem Made.otsWriteCb_of_not (hfits : ∀ i, ¬Fits c id offset length i) (mode : UInt8)
    (data : Mem) : s.otsWriteCb c id mode offset length data = (s, 0) := by
  have hoff := offset.toNat_lt
  have hlen := length.toNat_lt
  unfold otsWriteCb
  cases hi : c.imageOf id with
  | none => rfl
  | some i =>
    have hpast : ¬offset.toNat + length.toNat ≤ c.maxImageSize := fun hle => hfits i ⟨hi, hle⟩
    simp only
    rw [h.imageWrite_eq (imageOf_lt hi) (by omega), if_neg hpast]
    simp only [h.updateImageInfo_of_lt (not_le.mp hpast), ite_self, Nat.zero_mod]

end Callbacks

/-! ### A request -/

/-- An address is in a piece of an image exactly when it is of the image and in the piece. -/
theorem mem_piece_iff {size i w pos offset length : ℕ} (hpos : pos < size)
    (hfit : offset + length ≤ size) :
    (w * size + offset ≤ i * size + pos ∧ i * size + pos < w * size + offset + length) ↔
      i = w ∧ offset ≤ pos ∧ pos < offset + length := by
  constructor
  · rintro ⟨hle, hlt⟩
    have hiw : i = w := by
      rcases Nat.lt_trichotomy i w with hlow | heq | hhigh
      · have := Nat.mul_le_mul_right size (show i + 1 ≤ w from hlow)
        rw [Nat.add_mul] at this
        omega
      · exact heq
      · have := Nat.mul_le_mul_right size (show w + 1 ≤ i from hhigh)
        rw [Nat.add_mul] at this
        omega
    subst hiw
    exact ⟨rfl, by omega, by omega⟩
  · rintro ⟨rfl, hle, hlt⟩
    exact ⟨by omega, by omega⟩

/-- **What a request can do**: it fills the buffer, and says nothing of the images, or it is a write
that fits an image. -/
theorem step_cases (h : Made c s) (r : OtsRequest) :
    (∃ bufTemp, s.step c r = { s with bufTemp := bufTemp } ∧
      ∀ i, r.lengthOf c i = none ∧ ∀ pos, r.byteAt c i pos = none) ∨
    ∃ id mode offset length data w, r = .write id mode offset length data ∧
      Fits c id offset length w ∧ s.step c r =
        { s with
          imageData := memcpy s.imageData (w * c.maxImageSize + offset.toNat)
            (bytes data length.toNat)
          entries := if mode &&& BLC_OTS_OACP_WRITE_MODE_TRUNCATE ≠ 0 then
              Function.update s.entries w (offset.toNat + length.toNat)
            else s.entries } := by
  cases r with
  | read id offset length =>
    left
    cases hi : c.imageOf id with
    | none =>
      refine ⟨s.bufTemp, ?_, fun i => ⟨rfl, fun pos => rfl⟩⟩
      rw [step, otsReadCb, hi]
    | some i =>
      rw [step, h.otsReadCb_eq id offset length hi]
      exact ⟨_, rfl, fun i => ⟨rfl, fun pos => rfl⟩⟩
  | write id mode offset length data =>
    by_cases hfits : ∃ w, Fits c id offset length w
    · obtain ⟨w, hfits⟩ := hfits
      right
      refine ⟨id, mode, offset, length, data, w, rfl, hfits, ?_⟩
      rw [step, h.otsWriteCb_eq id offset length hfits]
    · left
      refine ⟨s.bufTemp, ?_, fun i => ⟨?_, fun pos => ?_⟩⟩
      · rw [step, h.otsWriteCb_of_not id offset length (not_exists.mp hfits)]
      · exact if_neg fun hi => hfits ⟨i, hi.1⟩
      · exact if_neg fun hi => hfits ⟨i, hi.1⟩

theorem made_step (h : Made c s) (r : OtsRequest) : Made c (s.step c r) := by
  rcases step_cases h r with ⟨bufTemp, hstep, -⟩ |
    ⟨id, mode, offset, length, data, w, -, hfits, hstep⟩
  · rw [hstep]
    exact h.withData s.imageData bufTemp
  · rw [hstep]
    refine ⟨h.initialized, h.numImages, h.imageMaxSize, fun i => ?_⟩
    simp only
    split
    · by_cases hi : i = w
      · rw [hi, Function.update_self]
        exact hfits.2
      · rw [Function.update_of_ne hi]
        exact h.entries_le i
    · exact h.entries_le i

/-- **The length** is set by a write that fits and truncates. -/
theorem entries_step (h : Made c s) (i : ℕ) (r : OtsRequest) :
    (s.step c r).entries i = (r.lengthOf c i).getD (s.entries i) := by
  rcases step_cases h r with ⟨bufTemp, hstep, hnone⟩ |
    ⟨id, mode, offset, length, data, w, rfl, hfits, hstep⟩
  · rw [hstep, (hnone i).1]
    rfl
  · rw [hstep, lengthOf]
    simp only [hfits.iff_eq]
    by_cases hmode : mode &&& BLC_OTS_OACP_WRITE_MODE_TRUNCATE ≠ 0
    · by_cases hi : i = w
      · rw [if_pos hmode, if_pos ⟨hi, hmode⟩, hi, Function.update_self]
        rfl
      · rw [if_pos hmode, if_neg fun hand => hi hand.1, Function.update_of_ne hi]
        rfl
    · rw [if_neg hmode, if_neg fun hand => hmode hand.2]
      rfl

/-- **The bytes** are set by a write that fits, where it says. -/
theorem imageData_step (h : Made c s) (i : ℕ) {pos : ℕ} (hpos : pos < c.maxImageSize)
    (r : OtsRequest) : (s.step c r).imageData (i * c.maxImageSize + pos) =
      (r.byteAt c i pos).getD (s.imageData (i * c.maxImageSize + pos)) := by
  rcases step_cases h r with ⟨bufTemp, hstep, hnone⟩ |
    ⟨id, mode, offset, length, data, w, rfl, hfits, hstep⟩
  · rw [hstep, (hnone i).2]
    rfl
  · rw [hstep, byteAt]
    simp only [hfits.iff_eq, memcpy_bytes_apply, mem_piece_iff hpos hfits.2]
    split
    · rename_i hin
      obtain ⟨rfl, hle, -⟩ := hin
      rw [Option.getD_some, Nat.add_sub_add_left]
    · rfl

/-! ### Runs -/

/-- **Each image is an array of bytes**: its length is what the last write that truncated it gave,
its bytes are those that were last written, and reads give them; a write changes the bytes it says
of the image it says, and a call that fails changes nothing. -/
structure Refines (c : ImageConfig) (imageData : Mem) (rs : List OtsRequest) (s : ImageStorage) :
    Prop where
  /-- The lengths. -/
  entries : ∀ i < c.maxImages, s.entries i = (latest (lengthOf c i) rs).getD 0
  /-- What a read returns, which is the number of the bytes, -/
  read : ∀ id offset length, (s.otsReadCb c id offset length).2 =
    match c.imageOf id with
    | none => 0
    | some i => min (min length.toNat OTSS_L2CAP_MTU)
        ((latest (lengthOf c i) rs).getD 0 - offset.toNat)
  /-- and the bytes. -/
  readBytes : ∀ id offset length i, c.imageOf id = some i →
    ∀ j < (s.otsReadCb c id offset length).2,
      (s.otsReadCb c id offset length).1.bufTemp j =
        (latest (byteAt c i (offset.toNat + j)) rs).getD
          (imageData (i * c.maxImageSize + (offset.toNat + j)))
  /-- A read changes no image, and nothing at all when it returns no bytes. -/
  readFrame : ∀ id offset length,
    { (s.otsReadCb c id offset length).1 with bufTemp := s.bufTemp } = s ∧
      ((s.otsReadCb c id offset length).2 = 0 → (s.otsReadCb c id offset length).1 = s)
  /-- A write returns the number of its bytes when they fit an image. -/
  write : ∀ id mode offset length data i, Fits c id offset length i →
    (s.otsWriteCb c id mode offset length data).2 = length.toNat
  /-- Only the bytes of that image, from the offset on, are changed, -/
  writeBytes : ∀ id mode offset length data i, Fits c id offset length i → ∀ a,
    ¬(i * c.maxImageSize + offset.toNat ≤ a ∧
      a < i * c.maxImageSize + offset.toNat + length.toNat) →
    (s.otsWriteCb c id mode offset length data).1.imageData a = s.imageData a
  /-- and only its length, when it truncates. -/
  writeLength : ∀ id mode offset length data i, Fits c id offset length i → ∀ j,
    (j ≠ i ∨ mode &&& BLC_OTS_OACP_WRITE_MODE_TRUNCATE = 0) →
    (s.otsWriteCb c id mode offset length data).1.entries j = s.entries j
  /-- A write that fits no image fails, and changes nothing. -/
  refused : ∀ id mode offset length data, (∀ i, ¬Fits c id offset length i) →
    s.otsWriteCb c id mode offset length data = (s, 0)

section

variable (c : ImageConfig) (imageData bufTemp : Mem) (rs : List OtsRequest)

/-- The storage after a run is as it was made, and the lengths are the latest. -/
theorem entries_run (i : ℕ) : Made c (rs.foldl (step c) (boot c imageData bufTemp)) ∧
    (rs.foldl (step c) (boot c imageData bufTemp)).entries i =
      (latest (lengthOf c i) rs).getD 0 := by
  have hboot : (boot c imageData bufTemp).entries i = 0 := by simp [boot, appImageStorageInit]
  rw [← hboot]
  exact get_foldl (fun s => s.entries i) (made_boot _ _) (fun _ r h => made_step h r)
    (fun _ r h => entries_step h i r) rs

/-- The bytes after a run are the latest. -/
theorem imageData_run (i : ℕ) {pos : ℕ} (hpos : pos < c.maxImageSize) :
    (rs.foldl (step c) (boot c imageData bufTemp)).imageData (i * c.maxImageSize + pos) =
      (latest (byteAt c i pos) rs).getD (imageData (i * c.maxImageSize + pos)) :=
  (get_foldl (fun s => s.imageData (i * c.maxImageSize + pos)) (made_boot imageData bufTemp)
    (fun _ r h => made_step h r) (fun _ r h => imageData_step h i hpos r) rs).2

end

/-- What a read leaves the images as. -/
theorem Made.readFrame (h : Made c s) (id : ObjectId) (offset length : UInt16) :
    { (s.otsReadCb c id offset length).1 with bufTemp := s.bufTemp } = s ∧
      ((s.otsReadCb c id offset length).2 = 0 → (s.otsReadCb c id offset length).1 = s) := by
  cases hi : c.imageOf id with
  | none => simp [otsReadCb, hi]
  | some i =>
    rw [h.otsReadCb_eq id offset length hi]
    refine ⟨rfl, fun hzero => ?_⟩
    simp only at hzero
    simp only [hzero, bytes_zero, memcpy_nil]

/-- **Every run of requests**, whatever the array holds at first. -/
theorem images_refine (c : ImageConfig) (imageData bufTemp : Mem) (rs : List OtsRequest) :
    Refines c imageData rs (rs.foldl (step c) (boot c imageData bufTemp)) := by
  have hentries := entries_run c imageData bufTemp rs
  have hdata := imageData_run c imageData bufTemp rs
  generalize rs.foldl (step c) (boot c imageData bufTemp) = s at hentries hdata
  have hmade : Made c s := (hentries 0).1
  constructor
  case entries => exact fun i _ => (hentries i).2
  case read =>
    intro id offset length
    cases hi : c.imageOf id with
    | none => simp [otsReadCb, hi]
    | some i =>
      rw [hmade.otsReadCb_eq id offset length hi]
      simp only [(hentries i).2]
  case readBytes =>
    intro id offset length i hi j hj
    rw [hmade.otsReadCb_eq id offset length hi] at hj ⊢
    have hle := hmade.entries_le i
    simp only at hj ⊢
    rw [memcpy_bytes_apply, if_pos ⟨Nat.zero_le _, by omega⟩, ← hdata i (by omega)]
    simp only [adv]
    congr 1
    omega
  case readFrame => exact hmade.readFrame
  case write =>
    intro id mode offset length data i hfits
    rw [hmade.otsWriteCb_eq id offset length hfits]
  case writeBytes =>
    intro id mode offset length data i hfits a ha
    rw [hmade.otsWriteCb_eq id offset length hfits]
    exact (memcpy_bytes_apply _ _ _ _ _).trans (if_neg ha)
  case writeLength =>
    intro id mode offset length data i hfits j hj
    rw [hmade.otsWriteCb_eq id offset length hfits]
    simp only
    split
    · rename_i hmode
      exact Function.update_of_ne (hj.resolve_right hmode) _ _
    · rfl
  case refused =>
    intro id mode offset length data hfits
    exact hmade.otsWriteCb_of_not id offset length hfits mode data

end ImageStorage

end TcBle.Vendor
