import TcBle.Foundation.Transducer
import TcBle.HciTransport.TrH5

/-!
# Reassembly in the H5 transport

The frames of a byte stream are what a machine finds that reads it byte by byte
(`slipByte`). The receive handler, which is given the stream in chunks, follows this
machine: its backup buffer holds the frame that the last chunk cut (`Holding`).

## What is proved

* `receive_frames` — the packets delivered are those of the frames, whatever the chunks, as
  long as the backup buffer's eight-bit counters hold what the chunks make it take.
* `chunking_iff` — they always do exactly when the slots of the HCI RX FIFO have at most 55
  bytes.
-/

namespace TcBle.HciTransport

open TcBle.Foundation.Transducer

/-- A frame is opened by a delimiter and has at least one byte before the delimiter that closes
it. The state is what the open frame has after the first of them. -/
def slipByte : Option (List UInt8) → UInt8 → Option (List UInt8) × List (List UInt8)
  | none, b => if b = slipDelimiter then (some [], []) else (none, [])
  | some t, b =>
    if b = slipDelimiter then
      if t = [] then (some [], []) else (none, [slipDelimiter :: t ++ [slipDelimiter]])
    else (some (t ++ [b]), [])

/-- The bytes of an open frame. -/
def held : Option (List UInt8) → List UInt8
  | none => []
  | some t => slipDelimiter :: t

/-- The frames of a stream, and the frame it leaves open. -/
abbrev frames (s : Option (List UInt8)) (data : List UInt8) :
    Option (List UInt8) × List (List UInt8) :=
  feed slipByte s data

theorem filterMap_cons_toList {α β : Type*} (f : α → Option β) (a : α) (l : List α) :
    (a :: l).filterMap f = (f a).toList ++ l.filterMap f := by
  rw [List.filterMap_cons]
  cases f a <;> rfl

/-! ### What the handler looks for -/

theorem frames_of_findSlipHeadFlag_none {data : List UInt8}
    (h : hciTrH5FindSlipHeadFlag data = none) :
    frames none data = (none, []) := by
  fun_induction hciTrH5FindSlipHeadFlag data with
  | case1 => rfl
  | case2 => simp at h
  | case3 b hb => simp [frames, feed_cons, slipByte, hb]
  | case4 => simp at h
  | case5 b c rest hb ih =>
    by_cases hdel : b = slipDelimiter
    · have hc : c = slipDelimiter := by
        by_contra hc
        exact hb ⟨hdel, hc⟩
      rw [← ih h, hdel, hc]
      rfl
    · exact (feed_cons_of_quiet slipByte (by simp [slipByte, hdel]) _).trans (ih h)

theorem frames_of_findSlipHeadFlag_some {data pBuf : List UInt8}
    (h : hciTrH5FindSlipHeadFlag data = some pBuf) :
    ∃ t, pBuf = slipDelimiter :: t ∧ t.head? ≠ some slipDelimiter ∧ pBuf.length ≤ data.length ∧
      frames none data = frames (some []) t := by
  fun_induction hciTrH5FindSlipHeadFlag data with
  | case1 => simp at h
  | case2 =>
    obtain rfl := Option.some.inj h
    exact ⟨[], rfl, nofun, le_refl _, rfl⟩
  | case3 => simp at h
  | case4 b c rest hb =>
    obtain rfl := Option.some.inj h
    exact ⟨c :: rest, by rw [hb.1], by simpa using hb.2, le_refl _,
      feed_cons_of_quiet slipByte (by simp [slipByte, hb.1]) _⟩
  | case5 b c rest hb ih =>
    obtain ⟨t, hpBuf, hhead, hlen, heq⟩ := ih h
    refine ⟨t, hpBuf, hhead, by simp only [List.length_cons] at hlen ⊢; omega, ?_⟩
    rw [← heq]
    by_cases hdel : b = slipDelimiter
    · have hc : c = slipDelimiter := by
        by_contra hc
        exact hb ⟨hdel, hc⟩
      rw [hdel, hc]
      rfl
    · exact feed_cons_of_quiet slipByte (by simp [slipByte, hdel]) _

theorem frames_of_findSlipFlag_none {data : List UInt8} (h : hciTrH5FindSlipFlag data = none)
    (t : List UInt8) : frames (some t) data = (some (t ++ data), []) := by
  induction data generalizing t with
  | nil => simp [frames]
  | cons b data ih =>
    rw [hciTrH5FindSlipFlag] at h
    split_ifs at h with hb
    have hquiet : slipByte (some t) b = (some (t ++ [b]), []) := by simp [slipByte, hb]
    rw [frames, feed_cons_of_quiet slipByte hquiet]
    refine (ih (by simpa using h) (t ++ [b])).trans ?_
    simp

theorem frames_of_findSlipFlag_some {data : List UInt8} {n : ℕ}
    (h : hciTrH5FindSlipFlag data = some n)
    (t : List UInt8) :
    ∃ x y, data = x ++ slipDelimiter :: y ∧ x.length = n ∧ (t ++ x ≠ [] → frames (some t) data =
      ((frames none y).1, (slipDelimiter :: (t ++ x) ++ [slipDelimiter]) ::
        (frames none y).2)) := by
  induction data generalizing t n with
  | nil => simp [hciTrH5FindSlipFlag] at h
  | cons b data ih =>
    rw [hciTrH5FindSlipFlag] at h
    split_ifs at h with hb
    · obtain rfl := Option.some.inj h
      refine ⟨[], data, by rw [hb]; rfl, rfl, fun ht => ?_⟩
      rw [List.append_nil] at ht ⊢
      rw [frames, feed_cons, hb]
      simp [slipByte, ht]
    · obtain ⟨m, hm, rfl⟩ := Option.map_eq_some_iff.mp h
      obtain ⟨x, y, rfl, rfl, hframes⟩ := ih hm (t ++ [b])
      have hquiet : slipByte (some t) b = (some (t ++ [b]), []) := by simp [slipByte, hb]
      refine ⟨b :: x, y, rfl, rfl, fun _ => ?_⟩
      rw [frames, feed_cons_of_quiet slipByte hquiet]
      have := hframes (by simp)
      rwa [List.append_assoc, List.singleton_append] at this

namespace H5Tr

/-- **The backup buffer holds `b`.** -/
structure Holding (e : H5Tr) (b : List UInt8) : Prop where
  /-- The counter. -/
  backupCnt : e.backupCnt = b.length
  /-- The bytes. -/
  backupBuf : bytes e.backupBuf b.length = b

/-- The packets that the SLIP decoder gives to the H5 packet handler. -/
def delivered (room : ℕ) (e : H5Tr) : List (List UInt8) := e.handed.filterMap (slipDecoded room)

variable {e : H5Tr} {b data t : List UInt8}

theorem Holding.backup (h : Holding e b) (hshort : b.length + data.length < 2 ^ 8) :
    Holding (e.backup data) (b ++ data) := by
  refine ⟨?_, ?_⟩
  · simp only [H5Tr.backup, h.backupCnt, List.length_append]
    omega
  · simp only [H5Tr.backup, h.backupCnt]
    exact bytes_memcpy h.backupBuf data

/-- An open frame's rest, in the next chunk: the backup handler takes at most `k` bytes, and its
buffer of `size` bytes holds the frame. -/
def Short (k size : ℕ) (s : Option (List UInt8)) (data : List UInt8) : Prop :=
  ∀ y z, y ++ [z] <+: data → (frames s y).2 = [] →
    y.length < k ∧ (held (frames s y).1).length < 2 ^ 8 - 1 ∧ (held (frames s y).1).length < size

theorem Short.head {k size : ℕ} {s : Option (List UInt8)} {x : UInt8}
    (h : Short k size s (x :: data)) :
    0 < k ∧ (held s).length < 2 ^ 8 - 1 ∧ (held s).length < size :=
  h [] x ⟨data, rfl⟩ rfl

theorem Short.tail {k size : ℕ} {s s' : Option (List UInt8)} {x : UInt8}
    (h : Short k size s (x :: data))
    (hstep : slipByte s x = (s', [])) : Short (k - 1) size s' data := by
  intro y z hyz hquiet
  have heq : frames s (x :: y) = frames s' y := feed_cons_of_quiet slipByte hstep y
  have := h (x :: y) z (List.prefix_cons_inj x |>.mpr hyz) (by rw [heq]; exact hquiet)
  rw [heq, List.length_cons] at this
  exact ⟨by omega, this.2⟩

theorem Short.nil (k size : ℕ) (s : Option (List UInt8)) : Short k size s [] :=
  fun y _ hyz => absurd (List.prefix_nil.mp hyz) (by simp)

theorem Short.cons {k size : ℕ} {s s' : Option (List UInt8)} {x : UInt8} {out : List (List UInt8)}
    (hstep : slipByte s x = (s', out)) (hcnt : (held s).length < 2 ^ 8 - 1)
    (hsize : (held s).length < size)
    (h : out = [] → Short k size s' data) : Short (k + 1) size s (x :: data) := by
  intro y z hyz hquiet
  cases y with
  | nil => exact ⟨Nat.succ_pos k, hcnt, hsize⟩
  | cons w y =>
    obtain ⟨rfl, hyz'⟩ := List.cons_prefix_cons.mp hyz
    have hframes : frames s (w :: y) = ((frames s' y).1, out ++ (frames s' y).2) := by
      rw [frames, feed_cons, hstep]
    rw [hframes] at hquiet ⊢
    obtain ⟨hout, hquiet⟩ := List.append_eq_nil_iff.mp hquiet
    obtain ⟨hy, hheld⟩ := h hout y z hyz' hquiet
    exact ⟨Nat.succ_lt_succ hy, hheld⟩

/-- **The backup handler** takes the bytes of the frame it holds, up to the delimiter that closes
it. -/
theorem backupLoop_frames (now : UInt32) {k : ℕ} (h : Holding e (slipDelimiter :: t))
    (hshort : Short k e.bufSize (some t) data) :
    ∃ e' n, backupLoop now data e = (e', n) ∧ n ≤ data.length ∧ n ≤ k ∧ e'.bufSize = e.bufSize ∧
      Holding e' (held (frames (some t) (data.take n)).1) ∧
      e'.handed = e.handed ++ (frames (some t) (data.take n)).2 ∧
      (n < data.length → (frames (some t) (data.take n)).1 = none) := by
  induction data generalizing e t k with
  | nil =>
    exact ⟨e, 0, rfl, le_refl _, Nat.zero_le _, rfl, h, (List.append_nil _).symm,
      fun h => absurd h (by simp)⟩
  | cons b data ih =>
    obtain ⟨hk, hcnt, hsize⟩ := hshort.head
    simp only [held, List.length_cons] at hcnt hsize
    have hbackupCnt : e.backupCnt = t.length + 1 := h.backupCnt
    rw [backupLoop, if_neg (by omega)]
    by_cases hb : b = slipDelimiter
    · subst hb
      rw [if_pos rfl]
      by_cases ht : t = []
      · -- a second delimiter right after the first is skipped
        subst ht
        rw [if_pos (show e.backupCnt = 1 from hbackupCnt)]
        have hstep : slipByte (some []) slipDelimiter = (some [], []) := rfl
        obtain ⟨e', n, heq, hn, hnk, hbuf, hhold, hhanded, hend⟩ := ih h (hshort.tail hstep)
        refine ⟨e', n + 1, by rw [heq], Nat.succ_le_succ hn, by omega, hbuf, ?_, ?_, fun hlt => ?_⟩
        · exact hhold
        · exact hhanded
        · exact hend (Nat.lt_of_succ_lt_succ hlt)
      · have hcnt' : e.backupCnt ≠ 1 := by
          have := List.length_pos_iff.mpr ht
          omega
        rw [if_neg hcnt']
        have hback : Holding (e.backup [slipDelimiter]) _ := h.backup (by simp; omega)
        have hbytes := hback.backupBuf
        rw [← hback.backupCnt] at hbytes
        have hframes : frames (some t) [slipDelimiter] =
          (none, [slipDelimiter :: t ++ [slipDelimiter]]) := by
          simp [frames, feed_cons, slipByte, ht]
        refine ⟨_, 1, rfl, by simp, hk, rfl, ?_, ?_, fun _ => ?_⟩
        · rw [List.take_succ_cons, List.take_zero, hframes]
          exact ⟨rfl, rfl⟩
        · refine Eq.trans ?_ (congrArg (fun r => e.handed ++ r.2) hframes).symm
          exact congrArg (fun p => e.handed ++ [p]) hbytes
        · exact congrArg Prod.fst hframes
    · rw [if_neg hb]
      have hstep : slipByte (some t) b = (some (t ++ [b]), []) := by simp [slipByte, hb]
      have hback : Holding (e.backup [b]) _ := h.backup (by simp; omega)
      have hhold : Holding ((e.backup [b]).timerEnable now) (slipDelimiter :: (t ++ [b])) :=
        { hback with }
      obtain ⟨e', n, heq, hn, hnk, hbuf, hhold', hhanded, hend⟩ := ih hhold (hshort.tail hstep)
      have hframes : frames (some t) ((b :: data).take (n + 1)) =
        frames (some (t ++ [b])) (data.take n) :=
        feed_cons_of_quiet slipByte hstep _
      refine ⟨e', n + 1, by rw [heq], Nat.succ_le_succ hn, by omega, hbuf, ?_, ?_, fun hlt => ?_⟩
      · rw [hframes]
        exact hhold'
      · rw [hframes]
        exact hhanded
      · rw [hframes]
        exact hend (Nat.lt_of_succ_lt_succ hlt)

/-- From `e` to `e'` the handler has read `data`, in which the machine goes from `s` on; `see` is
what is seen of a frame. -/
structure ReadAs {ω : Type*} (see : List UInt8 → Option ω) (s : Option (List UInt8))
    (data : List UInt8) (e e' : H5Tr) : Prop where
  /-- The size of the buffers. -/
  bufSize : e'.bufSize = e.bufSize
  /-- The frames. -/
  delivered : e'.handed.filterMap see = e.handed.filterMap see ++ (frames s data).2.filterMap see
  /-- The open frame, if the counter can hold its length. -/
  holding : (held (frames s data).1).length < 2 ^ 8 → Holding e' (held (frames s data).1)

/-- What is seen are the packets. -/
abbrev Read (room : ℕ) := ReadAs (slipDecoded room)

section
variable {ω : Type*} (see : List UInt8 → Option ω)

/-- The rest of a round, outside a frame. Nothing is seen of a frame that is too short. -/
theorem rxFrame_readAs (hsee : ∀ w, w.length < 6 → see w = none) (fuel : ℕ) (now : UInt32)
    {data : List UInt8} {e : H5Tr}
    (h : Holding e []) (hlen : data.length < 2 ^ 16)
    (hfit : data.length ≤ e.bufSize) (hfuel : data.length ≤ fuel) :
    ∃ e', rxFrame (rxLoop fuel) data now e = some e' ∧ ReadAs see none data e e' := by
  induction fuel generalizing data e with
  | zero =>
    obtain rfl := List.eq_nil_of_length_eq_zero (Nat.le_zero.mp hfuel)
    exact ⟨e, rfl, rfl, (List.append_nil _).symm, fun _ => h⟩
  | succ fuel ih =>
    unfold rxFrame
    cases hhead : hciTrH5FindSlipHeadFlag data with
    | none =>
      have hframes := frames_of_findSlipHeadFlag_none hhead
      exact ⟨e, rfl, rfl, by rw [hframes]; exact (List.append_nil _).symm,
        fun _ => by rw [hframes]; exact h⟩
    | some pBuf =>
      obtain ⟨t, rfl, hne, hle, hframes⟩ := frames_of_findSlipHeadFlag_some hhead
      rw [List.length_cons] at hle
      simp only [List.drop_one, List.tail_cons]
      cases hflag : hciTrH5FindSlipFlag t with
      | none =>
        -- the frame that the chunk leaves open
        have hopen := hframes.trans (frames_of_findSlipFlag_none hflag [])
        refine ⟨_, rfl, ?_⟩
        rw [hciTrH5BackupHandler, if_pos (show e.backupCnt = 0 from h.backupCnt),
          if_neg (by rw [List.length_cons]; omega)]
        refine ⟨rfl, by rw [hopen]; exact (List.append_nil _).symm, fun hshort => ?_⟩
        rw [hopen] at hshort ⊢
        have : Holding (e.backup (slipDelimiter :: t)) _ := h.backup (by simpa [held] using hshort)
        exact { this with }
      | some n =>
        obtain ⟨x, y, rfl, rfl, hclose⟩ := frames_of_findSlipFlag_some hflag []
        have hx : x ≠ [] := by
          rintro rfl
          exact hne rfl
        have hframe := hframes.trans (hclose hx)
        rw [List.length_append, List.length_cons] at hle
        have hmod : (1 + x.length + 1) % 2 ^ 16 = x.length + 2 := by omega
        have hdrop : (slipDelimiter :: (x ++ slipDelimiter :: y)).drop (x.length + 2) = y := by
          simp [List.drop_append]
        have htake : (slipDelimiter :: (x ++ slipDelimiter :: y)).take (x.length + 2) =
            slipDelimiter :: x ++ [slipDelimiter] := by
          simp [List.take_append]
        have hloop : ∀ f : H5Tr, Holding f [] → f.bufSize = e.bufSize →
            f.handed.filterMap see = e.handed.filterMap see ++
            (see (slipDelimiter :: x ++ [slipDelimiter])).toList →
            ∃ e', rxLoop (fuel + 1) y now f = some e' ∧
              ReadAs see none data e e' := by
          intro f hf hbuf hdel
          have hfinal : ∀ e', ReadAs see none y f e' → ReadAs see none data e e' := by
            intro e' hr
            refine ⟨hr.bufSize.trans hbuf, ?_, ?_⟩
            · rw [hr.delivered, hdel, hframe, List.append_assoc]
              exact congrArg _ (filterMap_cons_toList _ _ _).symm
            · rw [hframe]
              exact hr.holding
          by_cases hy : y = []
          · subst hy
            exact ⟨f, rfl, hfinal f ⟨rfl, (List.append_nil _).symm, fun _ => hf⟩⟩
          · obtain ⟨e', heq, hr⟩ := ih hf (show y.length < _ by omega) (by omega) (by omega)
            refine ⟨e', ?_, hfinal e' hr⟩
            rw [rxLoop, if_neg hy, backupFirst,
              if_neg (not_not.mpr (show f.backupCnt = 0 from hf.backupCnt))]
            exact heq
        simp only [hmod, hdrop, htake]
        by_cases hsix : x.length + 2 < 6
        · rw [if_pos hsix]
          refine hloop e h rfl ?_
          rw [hsee _ (by simpa using hsix)]
          exact (List.append_nil _).symm
        · rw [if_neg hsix]
          refine hloop _ { h with } rfl ?_
          rw [slipHandler, List.filterMap_append]
          exact congrArg _ ((filterMap_cons_toList _ _ []).trans (List.append_nil _))

/-- **A chunk**, whatever frame is open. -/
theorem rxLoop_readAs (hsee : ∀ w, w.length < 6 → see w = none) (fuel : ℕ) (now : UInt32)
    {s : Option (List UInt8)}
    (h : Holding e (held s)) (hne : data ≠ [])
    (hlen : data.length < 2 ^ 16) (hfit : data.length ≤ e.bufSize) (hfuel : data.length < fuel)
    (hshort : s ≠ none → Short (2 ^ 8 - 1) e.bufSize s data) :
    ∃ e', rxLoop fuel data now e = some e' ∧ ReadAs see s data e e' := by
  obtain ⟨fuel, rfl⟩ : ∃ k, fuel = k + 1 := ⟨fuel - 1, by omega⟩
  rw [rxLoop, if_neg hne, backupFirst]
  cases s with
  | none =>
    rw [if_neg (not_not.mpr (show e.backupCnt = 0 from h.backupCnt))]
    exact rxFrame_readAs see hsee fuel now h hlen hfit (by simp; omega)
  | some t =>
    have hcnt : e.backupCnt ≠ 0 := by
      rw [h.backupCnt]
      exact Nat.succ_ne_zero _
    obtain ⟨e₁, n, heq, hn, hnk, hbuf, hhold, hhanded, hend⟩ :=
      backupLoop_frames now h (hshort nofun)
    rw [if_pos hcnt, hciTrH5BackupHandler, if_neg hcnt, heq]
    have hmod : n % 2 ^ 16 % 2 ^ 8 = n := by omega
    simp only [hmod]
    have hsplit : frames (some t) data =
      ((frames (frames (some t) (data.take n)).1 (data.drop n)).1,
        (frames (some t) (data.take n)).2 ++
        (frames (frames (some t) (data.take n)).1 (data.drop n)).2) := by
      rw [← feed_append, List.take_append_drop]
    have hdel : e₁.handed.filterMap see =
        e.handed.filterMap see ++ (frames (some t) (data.take n)).2.filterMap see := by
      rw [hhanded, List.filterMap_append]
    by_cases hall : n = data.length
    · -- the frame goes on after the chunk, or ends with it
      subst hall
      rw [List.drop_length] at hsplit ⊢
      rw [List.take_length] at hhold hdel
      exact ⟨e₁, rfl, hbuf, hdel, fun _ => hhold⟩
    · have hnone := hend (by omega)
      rw [hnone] at hhold hsplit
      have hdrop : (data.drop n).length ≤ data.length := by
        rw [List.length_drop]
        exact Nat.sub_le _ _
      obtain ⟨e', heq', hr⟩ := rxFrame_readAs see hsee fuel now hhold (hdrop.trans_lt hlen)
        (hdrop.trans (hfit.trans_eq hbuf.symm)) (hdrop.trans (Nat.lt_succ_iff.mp hfuel))
      refine ⟨e', heq', hr.bufSize.trans hbuf, ?_, ?_⟩
      · rw [hr.delivered, hdel, hsplit, List.filterMap_append, List.append_assoc]
      · rw [hsplit]
        exact hr.holding

end

theorem slipDecoded_of_short (room : ℕ) (w : List UInt8) (h : w.length < 6) :
    slipDecoded room w = none := if_pos h

theorem rxFrame_read (room fuel : ℕ) (now : UInt32) {data : List UInt8} {e : H5Tr}
    (h : Holding e []) (hlen : data.length < 2 ^ 16)
    (hfit : data.length ≤ e.bufSize) (hfuel : data.length ≤ fuel) :
    ∃ e', rxFrame (rxLoop fuel) data now e = some e' ∧ Read room none data e e' :=
  rxFrame_readAs _ (slipDecoded_of_short room) fuel now h hlen hfit hfuel

theorem rxLoop_read (room fuel : ℕ) (now : UInt32) {s : Option (List UInt8)}
    (h : Holding e (held s)) (hne : data ≠ [])
    (hlen : data.length < 2 ^ 16) (hfit : data.length ≤ e.bufSize) (hfuel : data.length < fuel)
    (hshort : s ≠ none → Short (2 ^ 8 - 1) e.bufSize s data) :
    ∃ e', rxLoop fuel data now e = some e' ∧ Read room s data e e' :=
  rxLoop_readAs _ (slipDecoded_of_short room) fuel now h hne hlen hfit hfuel hshort

end H5Tr

/-! ### A whole stream -/

/-- A call of the handler. -/
structure H5Poll where
  /-- The system tick. -/
  now : UInt32
  /-- The chunks that have come since the last. -/
  chunks : List (List UInt8)

/-- All the chunks, in order. -/
def chunksOf (polls : List H5Poll) : List (List UInt8) := polls.flatMap H5Poll.chunks

/-- The length of a frame of which every byte is escaped, for HCI RX slots of `rxBufSize` bytes. -/
def maxFrame (rxBufSize : ℕ) : ℕ := 2 + (hciH5HeadLen + rxBufSize + hciH5CrcLen) * 2

/-- The frames of a stream, the last perhaps not closed, have lengths that the buffers allow. -/
def FramesFit (rxBufSize : ℕ) (stream : List UInt8) : Prop :=
  ∀ f ∈ held (frames none stream).1 :: (frames none stream).2, f.length ≤ maxFrame rxBufSize

/-- Where a chunk cuts a frame, the next has at most 255 bytes of it, counted from the start of that
chunk, and it has at most 255 bytes as a whole. -/
def NoLongFrameCut (chunks : List (List UInt8)) : Prop :=
  ∀ ks₁ k ks₂ t y z, chunks = ks₁ ++ k :: ks₂ → (frames none ks₁.flatten).1 = some t →
    y ++ [z] <+: k →
    (frames (some t) y).2 = [] → y.length < 2 ^ 8 - 1 ∧
      (held (frames (some t) y).1).length < 2 ^ 8 - 1

/-- What is open now is no longer than what comes of it. -/
theorem length_held_le (s : Option (List UInt8)) (data : List UInt8) {m : ℕ}
    (h : ∀ f ∈ held (frames s data).1 :: (frames s data).2, f.length ≤ m) :
    (held s).length ≤ m := by
  induction data generalizing s with
  | nil => exact h _ List.mem_cons_self
  | cons b data ih =>
    have hnext : (held (slipByte s b).1).length ≤ m := ih _ fun f hf => by
      refine h f ?_
      rw [frames, feed_cons]
      rcases List.mem_cons.mp hf with rfl | hf
      · exact List.mem_cons_self
      · exact List.mem_cons_of_mem _ (List.mem_append_right _ hf)
    have hout : ∀ f ∈ (slipByte s b).2, f.length ≤ m := by
      intro f hf
      refine h f (List.mem_cons_of_mem _ ?_)
      rw [frames, feed_cons]
      exact List.mem_append_left _ hf
    cases s with
    | none => exact Nat.zero_le m
    | some t =>
      simp only [slipByte] at hnext hout
      split_ifs at hnext hout with hb ht
      · rw [ht]
        exact hnext
      · have := hout _ List.mem_cons_self
        simp only [held, List.length_cons, List.length_append] at this ⊢
        omega
      · simp only [held, List.length_cons, List.length_append] at hnext ⊢
        omega

/-- So it is at every point of a stream. -/
theorem FramesFit.held {rxBufSize : ℕ} {stream x y : List UInt8} (h : FramesFit rxBufSize stream)
    (heq : stream = x ++ y) : (held (frames none x).1).length ≤ maxFrame rxBufSize := by
  subst heq
  refine length_held_le _ y fun f hf => h f ?_
  rw [frames, feed_append]
  rcases List.mem_cons.mp hf with rfl | hf
  · exact List.mem_cons_self
  · exact List.mem_cons_of_mem _ (List.mem_append_right _ hf)

namespace H5Tr

/-- The handler is called again and again. -/
def receive (fuel : ℕ) : List H5Poll → H5Tr → Option H5Tr
  | [], e => some e
  | p :: ps, e => (e.hciTrH5RxHandler fuel p.chunks p.now).bind (receive fuel ps)

/-- The backup buffer is never flushed. -/
def Timely (fuel : ℕ) : List H5Poll → H5Tr → Prop
  | [], _ => True
  | p :: ps, e => e.flushHandler p.now = e ∧
      ∀ e', e.hciTrH5RxHandler fuel p.chunks p.now = some e' → Timely fuel ps e'

/-- A stream as it comes, in chunks that a slot of the UART admits, with a fuel that covers them. -/
structure Arrives (rxBufSize fuel : ℕ) (stream : List UInt8) (polls : List H5Poll) (e : H5Tr) :
    Prop where
  /-- The chunks fit a slot, after its length. -/
  chunk : ∀ c ∈ chunksOf polls, c ≠ [] ∧ c.length + 4 ≤ hciH5TrRxBufSize rxBufSize ∧ c.length < fuel
  /-- They have the bytes of the stream. -/
  stream : (chunksOf polls).flatten = stream
  /-- No flush timeout. -/
  timely : Timely fuel polls e

/-- These packets are delivered to the H5 packet handler. -/
def Delivers (rxBufSize fuel : ℕ) (polls : List H5Poll) (e : H5Tr) (packets : List (List UInt8)) :
    Prop :=
  ∃ e', receive fuel polls e = some e' ∧ e'.delivered (hciSlipDecodeBufSize rxBufSize) = packets

/-- The chunks with the times at which they are handled. -/
def timed (polls : List H5Poll) : List (UInt32 × List UInt8) :=
  polls.flatMap fun p => p.chunks.map fun c => (p.now, c)

/-- The loop over a chunk, at its time. -/
def rxTimed (fuel : ℕ) (c : UInt32 × List UInt8) (e : H5Tr) : Option H5Tr := rxLoop fuel c.2 c.1 e

theorem flatMap_timed (polls : List H5Poll) : (timed polls).map Prod.snd = chunksOf polls := by
  simp only [timed, chunksOf, List.map_flatMap, List.map_map]
  congr 1
  funext p
  exact List.map_id _

/-- Without a flush, only the chunks matter. -/
theorem receive_eq (fuel : ℕ) (polls : List H5Poll) {e : H5Tr} (h : Timely fuel polls e) :
    receive fuel polls e = runAll (rxTimed fuel) (timed polls) e := by
  induction polls generalizing e with
  | nil => rfl
  | cons p ps ih =>
    have hchunks : ∀ (cs : List (List UInt8)) (e : H5Tr),
        rxChunks fuel p.now cs e = runAll (rxTimed fuel) (cs.map fun c => (p.now, c)) e := by
      intro cs
      induction cs with
      | nil => exact fun _ => rfl
      | cons c cs ihc =>
        intro e
        rw [rxChunks, List.map_cons, runAll]
        exact congrArg _ (funext ihc)
    have hcall : e.hciTrH5RxHandler fuel p.chunks p.now =
        runAll (rxTimed fuel) (p.chunks.map fun c => (p.now, c)) e := by
      rw [hciTrH5RxHandler, h.1, hchunks]
    rw [receive, timed, List.flatMap_cons, runAll_append, ← hcall]
    cases hrun : e.hciTrH5RxHandler fuel p.chunks p.now with
    | none => rfl
    | some e' => exact ih (h.2 e' hrun)

/-- **Whatever the chunks**, the packets delivered are those of the frames of the stream. -/
theorem receive_frames {rxBufSize fuel : ℕ} {stream : List UInt8} {polls : List H5Poll} {buf : Mem}
    (h : Arrives rxBufSize fuel stream polls (hciTrH5Init rxBufSize buf))
    (hlen : ∀ c ∈ chunksOf polls, c.length < 2 ^ 16) (hfit : FramesFit rxBufSize stream)
    (hcut : NoLongFrameCut (chunksOf polls)) :
    Delivers rxBufSize fuel polls (hciTrH5Init rxBufSize buf)
      ((frames none stream).2.filterMap (slipDecoded (hciSlipDecodeBufSize rxBufSize))) := by
  have hmax : maxFrame rxBufSize < hciH5TrRxBufSize rxBufSize := by
    simp only [maxFrame, hciH5TrRxBufSize, memSizeAlign16, hciH5HeadLen, hciH5CrcLen]
    omega
  -- what the chunks that are left need
  let Q : List (UInt32 × List UInt8) → H5Tr → Option (List UInt8) → Prop := fun ks _ s =>
    ∃ pre, timed polls = pre ++ ks ∧ s = (frames none (pre.map Prod.snd).flatten).1
  have hall := fun (pre : List (UInt32 × List UInt8)) k ks
    (hsplit : timed polls = pre ++ k :: ks) =>
    show chunksOf polls = pre.map Prod.snd ++ k.2 :: ks.map Prod.snd by
      rw [← flatMap_timed, hsplit, List.map_append, List.map_cons]
  have hshort : ∀ k ks e s, Q (k :: ks) e s → s ≠ none →
      Short (2 ^ 8 - 1) (hciH5TrRxBufSize rxBufSize) s k.2 := by
    rintro k ks e s ⟨pre, hsplit, rfl⟩ hs y z hyz hquiet
    obtain ⟨t, ht⟩ := Option.ne_none_iff_exists'.mp hs
    have hchunks := hall pre k ks hsplit
    rw [ht] at hquiet ⊢
    obtain ⟨hy, hlen⟩ := hcut _ k.2 _ t y z hchunks ht hyz hquiet
    obtain ⟨v, hv⟩ := hyz
    have hheld := hfit.held (x := (pre.map Prod.snd).flatten ++ y)
      (y := [z] ++ v ++ (ks.map Prod.snd).flatten) (by
      rw [← h.stream, hchunks, List.flatten_append, List.flatten_cons, ← hv]
      simp)
    rw [frames, feed_append, ht] at hheld
    exact ⟨hy, hlen, lt_of_le_of_lt hheld hmax⟩
  have hmem : ∀ k ks e s, Q (k :: ks) e s → k.2 ∈ chunksOf polls := by
    rintro k ks e s ⟨pre, hsplit, rfl⟩
    rw [hall pre k ks hsplit]
    simp
  obtain ⟨e', heq, hdel⟩ := follows slipByte (rxTimed fuel) Prod.snd
    (slipDecoded (hciSlipDecodeBufSize rxBufSize)) (delivered (hciSlipDecodeBufSize rxBufSize))
    (R := fun e s => e.bufSize = hciH5TrRxBufSize rxBufSize ∧ Holding e (held s)) (Q := Q)
    (fun k ks e s hR hQ => by
      obtain ⟨hne, hslot, hfuel⟩ := h.chunk _ (hmem k ks e s hQ)
      obtain ⟨e', heq, hr⟩ := rxLoop_read (hciSlipDecodeBufSize rxBufSize) fuel k.1 hR.2 hne
        (hlen _ (hmem k ks e s hQ)) (by rw [hR.1]; omega) hfuel
        (by rw [hR.1]; exact hshort k ks e s hQ)
      refine ⟨e', heq, hr.delivered, ?_⟩
      cases ks with
      | nil => exact Or.inl rfl
      | cons k' ks =>
        obtain ⟨pre, hsplit, rfl⟩ := hQ
        have hQ' : Q (k' :: ks) e' (frames (frames none (pre.map Prod.snd).flatten).1 k.2).1 :=
          ⟨pre ++ [k], by rw [hsplit, List.append_assoc]; rfl, by simp [frames, feed_append]⟩
        refine Or.inr ⟨⟨hr.bufSize.trans hR.1, hr.holding ?_⟩, hQ'⟩
        -- the counter holds it, since something of the next chunk follows
        cases hs : (frames (frames none (pre.map Prod.snd).flatten).1 k.2).1 with
        | none => decide
        | some t =>
          have hne' := (h.chunk _ (hmem k' ks e' _ hQ')).1
          obtain ⟨x, xs, hx⟩ := List.exists_cons_of_ne_nil hne'
          have := hshort k' ks e' _ hQ' (by rw [hs]; nofun)
          rw [hx, hs] at this
          have := this.head.2.1
          omega)
    (timed polls) (t := hciTrH5Init rxBufSize buf) (s := none) ⟨rfl, rfl, rfl⟩ ⟨[], rfl, rfl⟩
  refine ⟨e', (receive_eq fuel polls h.timely).trans heq, ?_⟩
  rw [hdel, show (timed polls).flatMap Prod.snd =
    stream by rw [List.flatMap_def, flatMap_timed, h.stream]]
  rfl

/-! ### The counters are eight bits long -/

/-- Delimiters between two frames, many of them, and a frame. -/
def burst : List UInt8 := List.replicate 252 slipDelimiter ++ [1, 2, 3, 4, slipDelimiter]

/-- The frame. -/
def burstFrame : List UInt8 := [slipDelimiter, 1, 2, 3, 4, slipDelimiter]

/-- The first of the delimiters comes alone. -/
def firstAlone : List H5Poll := [⟨1, [[slipDelimiter], burst]⟩]

/-- All of it comes at once. -/
def atOnce : List H5Poll := [⟨1, [slipDelimiter :: burst]⟩]

theorem frames_delimiters (n : ℕ) (data : List UInt8) :
    frames (some []) (List.replicate n slipDelimiter ++ data) = frames (some []) data := by
  induction n with
  | zero => rfl
  | succ n ih =>
    rw [List.replicate_succ, List.cons_append]
    exact (feed_cons_of_quiet slipByte (by rfl) _).trans ih

theorem frames_burst : frames none (slipDelimiter :: burst) = (none, [burstFrame]) :=
  (feed_cons_of_quiet slipByte (by rfl) _).trans ((frames_delimiters 252 _).trans (by rfl))

theorem length_burst : burst.length = 257 := by
  rw [burst, List.length_append, List.length_replicate]
  rfl

theorem slipDecoded_burstFrame {room : ℕ} (h : 4 ≤ room) :
    slipDecoded room burstFrame = some [1, 2, 3, 4] := by
  have hdecode := slipDecode_encode false (show [1, 2, 3, 4].length ≤ room from h)
  have hplain : ([1, 2, 3, 4] : List UInt8).flatMap (slipEncodeByte false) = [1, 2, 3, 4] := by
    decide
  rw [hplain] at hdecode
  rw [slipDecoded, if_neg (by decide)]
  simp only [burstFrame, List.drop_succ_cons, List.drop_zero, List.dropLast, hdecode, if_true]

/-- The delimiters are skipped one by one. -/
theorem backupLoop_delimiters (now : UInt32) (n : ℕ) (data : List UInt8) {e : H5Tr}
    (hcnt : e.backupCnt = 1)
    (hsize : 2 ≤ e.bufSize) :
    backupLoop now (List.replicate n slipDelimiter ++ data) e =
      ((backupLoop now data e).1, (backupLoop now data e).2 + n) := by
  induction n with
  | zero => rfl
  | succ n ih =>
    rw [List.replicate_succ, List.cons_append, backupLoop, if_neg (by omega), if_pos rfl,
      if_pos hcnt, ih]
    rfl

/-- The frame is given to the SLIP handler from the backup buffer, and then once more, since 257
bytes taken are counted as one. -/
theorem delivered_firstAlone {rxBufSize : ℕ} (h : 56 ≤ rxBufSize) :
    Delivers rxBufSize 300 firstAlone (hciTrH5Init rxBufSize fun _ => 0)
    [[1, 2, 3, 4], [1, 2, 3, 4]] := by
  have hsize : 288 ≤ hciH5TrRxBufSize rxBufSize := by
    simp only [hciH5TrRxBufSize, memSizeAlign16, hciH5HeadLen, hciH5CrcLen]
    omega
  have hroom : 4 ≤ hciSlipDecodeBufSize rxBufSize := by
    simp only [hciSlipDecodeBufSize, memSizeAlign4, hciH5HeadLen, hciH5CrcLen]
    omega
  obtain ⟨e₁, heq₁, hr₁⟩ := rxLoop_read (hciSlipDecodeBufSize rxBufSize) 300 1 (s := none)
    (e := hciTrH5Init rxBufSize fun _ => 0) ⟨rfl, rfl⟩ (show [slipDelimiter] ≠ [] by nofun)
    (by simp)
    (show 1 ≤ hciH5TrRxBufSize rxBufSize by omega) (by simp) (fun h => absurd rfl h)
  have hhold : Holding e₁ [slipDelimiter] := hr₁.holding (by decide)
  have hbuf₁ : e₁.bufSize = hciH5TrRxBufSize rxBufSize := hr₁.bufSize
  have hdel₁ : e₁.delivered (hciSlipDecodeBufSize rxBufSize) = [] := hr₁.delivered
  have hshort : Short 5 e₁.bufSize (some []) [1, 2, 3, 4, slipDelimiter] := by
    rw [hbuf₁]
    refine .cons rfl (by decide) (lt_of_lt_of_le (by decide) hsize) fun _ => ?_
    refine .cons rfl (by decide) (lt_of_lt_of_le (by decide) hsize) fun _ => ?_
    refine .cons rfl (by decide) (lt_of_lt_of_le (by decide) hsize) fun _ => ?_
    refine .cons rfl (by decide) (lt_of_lt_of_le (by decide) hsize) fun _ => ?_
    exact .cons rfl (by decide) (lt_of_lt_of_le (by decide) hsize) fun _ => .nil _ _ _
  obtain ⟨e₂, n, heq₂, hn, hnk, hbuf₂, hhold₂, hhanded₂, hend₂⟩ := backupLoop_frames 1 hhold hshort
  obtain rfl : n = 5 := by
    by_contra hne
    have hopen : ∀ m < 5, (frames (some []) ([1, 2, 3, 4, slipDelimiter].take m)).1 ≠ none := by
      decide
    exact hopen n (lt_of_le_of_ne hnk hne) (hend₂ (lt_of_le_of_ne hn hne))
  have hskip : backupLoop 1 burst e₁ = (e₂, 257) := by
    rw [burst, backupLoop_delimiters 1 252 _ hhold.backupCnt (by omega), heq₂]
  have hhold₂' : Holding e₂ [] := hhold₂
  have hhanded₂' : e₂.handed = e₁.handed ++ [burstFrame] := hhanded₂
  -- the handler looks for frames again after the first byte
  obtain ⟨e₃, heq₃, hr₃⟩ : ∃ e₃, rxFrame (rxLoop 299) (burst.drop 1) 1 e₂ = some e₃ ∧
      Read (hciSlipDecodeBufSize rxBufSize) none (burst.drop 1) e₂ e₃ :=
        rxFrame_read (hciSlipDecodeBufSize rxBufSize) 299 1 hhold₂'
    (by rw [List.length_drop, length_burst]; decide)
    (by rw [List.length_drop, length_burst, hbuf₂, hbuf₁]; omega)
    (by rw [List.length_drop, length_burst]; decide)
  have hframes₃ : frames none (burst.drop 1) = (none, [burstFrame]) :=
    (feed_cons_of_quiet slipByte (by rfl) _).trans ((frames_delimiters 250 _).trans (by rfl))
  have hround : rxLoop 300 burst 1 e₁ = some e₃ := by
    have hcnt : e₁.backupCnt ≠ 0 := by
      rw [hhold.backupCnt]
      decide
    have hne : burst ≠ [] := by
      intro hnil
      rw [← List.length_eq_zero_iff, length_burst] at hnil
      exact absurd hnil (by simp)
    rw [rxLoop, if_neg hne, backupFirst, if_pos hcnt, hciTrH5BackupHandler, if_neg hcnt, hskip]
    have hone : 257 % 2 ^ 16 % 2 ^ 8 = 1 := by decide
    simp only [hone]
    exact heq₃
  refine ⟨e₃, ?_, ?_⟩
  · have hflush : flushHandler 1 (hciTrH5Init rxBufSize fun _ => 0) =
        hciTrH5Init rxBufSize fun _ => 0 := rfl
    rw [firstAlone, receive, hciTrH5RxHandler, hflush, rxChunks, heq₁, Option.bind_some, rxChunks,
      hround]
    rfl
  · rw [delivered, hr₃.delivered, hframes₃, hhanded₂', List.filterMap_append]
    rw [show e₁.handed.filterMap _ = [] from hdel₁, filterMap_cons_toList,
      slipDecoded_burstFrame hroom]
    rfl

/-- The stream comes in either way. -/
theorem arrives_burst {rxBufSize : ℕ} (h : 56 ≤ rxBufSize) {polls : List H5Poll}
    (hpolls : polls = firstAlone ∨ polls = atOnce) :
    Arrives rxBufSize 300 (slipDelimiter :: burst) polls (hciTrH5Init rxBufSize fun _ => 0) := by
  have hsize : 288 ≤ hciH5TrRxBufSize rxBufSize := by
    simp only [hciH5TrRxBufSize, memSizeAlign16, hciH5HeadLen, hciH5CrcLen]
    omega
  have hchunks : ∀ c ∈ chunksOf polls, c = [slipDelimiter] ∨ c = burst ∨
    c = slipDelimiter :: burst := by
    rcases hpolls with rfl | rfl <;> intro c hc <;>
      simp only [chunksOf, firstAlone, atOnce, List.flatMap_cons, List.flatMap_nil, List.append_nil,
        List.mem_cons, List.not_mem_nil, or_false] at hc
    · exact hc.imp_right Or.inl
    · exact Or.inr (Or.inr hc)
  refine ⟨fun c hc => ?_, ?_, ?_⟩
  · have hburst : burst ≠ [] := by
      intro hnil
      rw [← List.length_eq_zero_iff, length_burst] at hnil
      exact absurd hnil (by simp)
    rcases hchunks c hc with rfl | rfl | rfl
    · exact ⟨nofun, le_trans (by simp) hsize, by decide⟩
    · rw [length_burst]
      exact ⟨hburst, le_trans (by simp) hsize, by decide⟩
    · rw [List.length_cons, length_burst]
      exact ⟨nofun, le_trans (by simp) hsize, by decide⟩
  · rcases hpolls with rfl | rfl <;>
      simp only [chunksOf, firstAlone, atOnce, List.flatMap_cons, List.flatMap_nil, List.append_nil,
        List.flatten_cons, List.flatten_nil, List.singleton_append]
  · rcases hpolls with rfl | rfl <;> exact ⟨rfl, fun _ _ => trivial⟩

theorem framesFit_burst (rxBufSize : ℕ) : FramesFit rxBufSize (slipDelimiter :: burst) := by
  intro f hf
  rw [frames_burst] at hf
  have hle : f.length ≤ 6 := by
    rcases List.mem_cons.mp hf with rfl | hf
    · decide
    · rw [List.mem_singleton.mp hf]
      decide
  simp only [maxFrame, hciH5HeadLen, hciH5CrcLen]
  omega

/-- Nothing is cut. -/
theorem delivered_atOnce {rxBufSize : ℕ} (h : 56 ≤ rxBufSize) :
    Delivers rxBufSize 300 atOnce (hciTrH5Init rxBufSize fun _ => 0) [[1, 2, 3, 4]] := by
  have hcut : NoLongFrameCut (chunksOf atOnce) := by
    intro ks₁ k ks₂ t y z hsplit hopen
    have hnil : ks₁ = [] := by
      have hlen := congrArg List.length hsplit
      rw [List.length_append, List.length_cons, show (chunksOf atOnce).length = 1 from rfl] at hlen
      exact List.eq_nil_of_length_eq_zero (by omega)
    rw [hnil] at hopen
    exact absurd hopen nofun
  have hroom : 4 ≤ hciSlipDecodeBufSize rxBufSize := by
    simp only [hciSlipDecodeBufSize, memSizeAlign4, hciH5HeadLen, hciH5CrcLen]
    omega
  have hlen : ∀ c ∈ chunksOf atOnce, c.length < 2 ^ 16 := by
    intro c hc
    obtain rfl := List.mem_singleton.mp hc
    rw [List.length_cons, length_burst]
    decide
  have hdelivers := receive_frames (arrives_burst h (Or.inr rfl)) hlen
    (framesFit_burst rxBufSize) hcut
  rw [frames_burst, filterMap_cons_toList, slipDecoded_burstFrame hroom] at hdelivers
  exact hdelivers

/-- **Chunking**: whatever the chunks, a stream gives the packets of its frames if no cut frame goes
on for more than 255 bytes; any two ways to cut a stream give the same, exactly when the slots of
the HCI RX FIFO have at most 55 bytes. -/
theorem chunking_iff (rxBufSize : ℕ) :
    (hciH5TrRxBufSize rxBufSize ≤ 2 ^ 16 → ∀ fuel stream polls buf,
      Arrives rxBufSize fuel stream polls (hciTrH5Init rxBufSize buf) →
      FramesFit rxBufSize stream → NoLongFrameCut (chunksOf polls) →
      Delivers rxBufSize fuel polls (hciTrH5Init rxBufSize buf)
        ((frames none stream).2.filterMap (slipDecoded (hciSlipDecodeBufSize rxBufSize)))) ∧
    ((∀ fuel stream polls polls' buf, Arrives rxBufSize fuel stream polls
      (hciTrH5Init rxBufSize buf) →
      Arrives rxBufSize fuel stream polls' (hciTrH5Init rxBufSize buf) →
        FramesFit rxBufSize stream →
      ∃ packets, Delivers rxBufSize fuel polls (hciTrH5Init rxBufSize buf) packets ∧
        Delivers rxBufSize fuel polls' (hciTrH5Init rxBufSize buf) packets) ↔ rxBufSize ≤ 55) := by
  have hlen : ∀ {fuel stream polls buf}, hciH5TrRxBufSize rxBufSize ≤ 2 ^ 16 →
      Arrives rxBufSize fuel stream polls (hciTrH5Init rxBufSize buf) →
        ∀ c ∈ chunksOf polls, c.length < 2 ^ 16 := by
    intro fuel stream polls buf hsize h c hc
    have := (h.chunk c hc).2.1
    omega
  refine ⟨fun hsize fuel stream polls buf h hfit hcut => receive_frames h (hlen hsize h) hfit hcut,
    fun hall => ?_, fun hsmall fuel stream polls polls' buf h h' hfit => ?_⟩
  · by_contra hbig
    have hbig : 56 ≤ rxBufSize := by omega
    obtain ⟨packets, ⟨e, he, hdel⟩, e', he', hdel'⟩ := hall 300 _ firstAlone atOnce (fun _ => 0)
      (arrives_burst hbig (Or.inl rfl)) (arrives_burst hbig (Or.inr rfl))
      (framesFit_burst rxBufSize)
    obtain ⟨f, hf, htwice⟩ := delivered_firstAlone hbig
    obtain ⟨f', hf', honce⟩ := delivered_atOnce hbig
    rw [he] at hf
    rw [he'] at hf'
    obtain rfl := Option.some.inj hf
    obtain rfl := Option.some.inj hf'
    rw [hdel] at htwice
    rw [hdel', htwice] at honce
    exact absurd honce (by decide)
  · have hbuf : hciH5TrRxBufSize rxBufSize ≤ 256 := by
      simp only [hciH5TrRxBufSize, memSizeAlign16, hciH5HeadLen, hciH5CrcLen]
      omega
    have hsize := hbuf.trans (show 256 ≤ 2 ^ 16 by decide)
    have hcut : ∀ {polls}, Arrives rxBufSize fuel stream polls (hciTrH5Init rxBufSize buf) →
        NoLongFrameCut (chunksOf polls) := by
      intro polls h ks₁ k ks₂ t y z hsplit hopen hyz _
      have hk := (h.chunk k (by rw [hsplit]; simp)).2.1
      have hy := hyz.length_le
      obtain ⟨v, hv⟩ := hyz
      have hheld := hfit.held (x := ks₁.flatten ++ y) (y := [z] ++ v ++ ks₂.flatten) (by
        rw [← h.stream, hsplit, List.flatten_append, List.flatten_cons, ← hv]
        simp)
      rw [frames, feed_append, hopen] at hheld
      have hmax : maxFrame rxBufSize < 2 ^ 8 - 1 := by
        simp only [maxFrame, hciH5HeadLen, hciH5CrcLen]
        omega
      rw [List.length_append, List.length_singleton] at hy
      exact ⟨by omega, lt_of_le_of_lt hheld hmax⟩
    exact ⟨_, receive_frames h (hlen hsize h) hfit (hcut h),
      receive_frames h' (hlen hsize h') hfit (hcut h')⟩

/-- With the slots of 272 bytes that the examples have, a packet is delivered twice or once. -/
theorem burst_twice :
    Arrives 272 300 (slipDelimiter :: burst) firstAlone (hciTrH5Init 272 fun _ => 0) ∧
    Arrives 272 300 (slipDelimiter :: burst) atOnce (hciTrH5Init 272 fun _ => 0) ∧
    FramesFit 272 (slipDelimiter :: burst) ∧
    Delivers 272 300 firstAlone (hciTrH5Init 272 fun _ => 0) [[1, 2, 3, 4], [1, 2, 3, 4]] ∧
    Delivers 272 300 atOnce (hciTrH5Init 272 fun _ => 0) [[1, 2, 3, 4]] :=
  ⟨arrives_burst (by decide) (Or.inl rfl), arrives_burst (by decide) (Or.inr rfl),
    framesFit_burst 272, delivered_firstAlone (by decide), delivered_atOnce (by decide)⟩


end H5Tr

end TcBle.HciTransport
