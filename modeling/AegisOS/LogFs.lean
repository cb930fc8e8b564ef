import AegisOS.Lib.Crc
import AegisOS.Lib.CString

/-! The log (`fs/logfs.c`): a ring of entries in memory, each handed to the block driver as it is
appended. -/
namespace AegisOS.LogFs
open ByteStore CString Crc

def logfsMagic : UInt32 := 0x4C4F4746
def logfsMaxTag : Nat := 32
def logfsMaxMsg : Nat := 448
def logfsMaxEntries : UInt32 := 65536
def logfsRingSize : UInt32 := 8192

/-- The size of the packed `logfs_entry_t`: 8 bytes less than a block. -/
def entrySize : Nat := 504

structure Superblock where
  magic : UInt32
  version : UInt32
  totalEntries : UInt32
  writeHead : UInt32
  baseLba : UInt32
  maxEntries : UInt32
  createTime : UInt64

/-- `ring` is the memory from `ring_buffer` on; the block of the last entry takes 8 bytes
from behind the array. -/
structure Log where
  ring : Store
  ringHead : UInt32
  ringCount : UInt32
  sequence : UInt32
  mounted : Bool
  sb : Superblock

/-- The log before `logfs_mount`. -/
def unmounted : Log where
  ring := fun _ => 0
  ringHead := 0
  ringCount := 0
  sequence := 0
  mounted := false
  sb := ⟨0, 0, 0, 0, 0, 0, 0⟩

def crc32Simple (bs : List UInt8) : UInt32 :=
  crcWith (fun c => if c &&& 1 ≠ 0 then (c >>> 1) ^^^ 0xEDB88320 else c >>> 1) bs

/-- The bounded copy of a string into an array; the bytes behind the terminator stay. -/
def copyText (m : Store) (a cap : Nat) (s : CStr) : Store :=
  blit m a ((s.truncate (cap - 1)).bytes.length + 1)
    (ofList ((s.truncate (cap - 1)).bytes ++ [0]))

/-- The fields of the entry at `a`, in the order in which they are stored. -/
def writeEntry (m : Store) (a : Nat) (seq : UInt32) (tag msg : CStr) : Store :=
  let m := writeLe m a 4 logfsMagic.toNat
  let m := writeLe m (a + 4) 4 seq.toNat
  let m := writeLe m (a + 8) 8 0
  let m := copyText m (a + 16) logfsMaxTag tag
  let m := copyText m (a + 48) logfsMaxMsg msg
  let m := writeLe m (a + 496) 4 (crc32Simple (readBytes m a 496)).toNat
  writeLe m (a + 500) 4 0

def logfsMount (s : Log) (path : Option CStr) : Log × Int :=
  if path.isNone then (s, -1)
  else if s.mounted then (s, 0)
  else
    ({ ring := (List.range logfsRingSize.toNat).foldl
          (fun m i => writeLe m (i * entrySize) 4 0) s.ring
       ringHead := 0
       ringCount := 0
       sequence := 0
       mounted := true
       sb := ⟨logfsMagic, 1, 0, 0, 1024, logfsMaxEntries, 0⟩ }, 0)

/-- The block handed to `storage_write` is the second result; NULL pointers are `none`. -/
def logfsAppend (s : Log) (tag msg : Option CStr) : Log × Option (UInt32 × Store) × Int :=
  if s.mounted = false then (s, none, -1)
  else
    match tag, msg with
    | some tag, some msg =>
      let entry := s.ringHead.toNat * entrySize
      let ring := writeEntry s.ring entry s.sequence tag msg
      let writeHead := (s.sb.writeHead + 1) % s.sb.maxEntries
      let lba := s.sb.baseLba + (writeHead - 1) % s.sb.maxEntries
      ({ s with
          ring := ring
          ringHead := (s.ringHead + 1) % logfsRingSize
          ringCount := if s.ringCount < logfsRingSize then s.ringCount + 1 else s.ringCount
          sequence := s.sequence + 1
          sb := { s.sb with totalEntries := s.sb.totalEntries + 1, writeHead := writeHead } },
        some (lba, fun j => ring (entry + j)), 0)
    | _, _ => (s, none, -1)

theorem copyText_before {m : Store} {a cap x : Nat} (s : CStr) (h : x < a) :
    copyText m a cap s x = m x := blit_outside (.inl h)

theorem writeEntry_magic (m : Store) (a : Nat) (seq : UInt32) (tag msg : CStr) :
    readLe (writeEntry m a seq tag msg) a 4 = logfsMagic.toNat := by
  have hstart : ∀ x, a ≤ x → x < a + 4 →
      writeEntry m a seq tag msg x = writeLe m a 4 logfsMagic.toNat x := by
    intro x h1 h2
    rw [writeEntry, writeLe_outside (by omega), writeLe_outside (by omega),
      copyText_before _ (by omega), copyText_before _ (by omega), writeLe_outside (by omega),
      writeLe_outside (by omega)]
  rw [readLe_congr hstart, readLe_writeLe m a (by decide)]

/-- The log after `n` appends on a fresh mount. -/
structure Counts (s : Log) (n : Nat) : Prop where
  mounted : s.mounted = true
  base : s.sb.baseLba = 1024
  size : s.sb.maxEntries = logfsMaxEntries
  head : s.sb.writeHead.toNat = n % 65536

variable {s : Log} {n : Nat}

theorem counts_mount (hfresh : s.mounted = false) (path : CStr) :
    Counts (logfsMount s (some path)).1 0 := by
  rw [logfsMount, if_neg (by simp), if_neg (by simp [hfresh])]
  exact ⟨rfl, rfl, rfl, rfl⟩

theorem Counts.append (h : Counts s n) (tag msg : CStr) :
    Counts (logfsAppend s (some tag) (some msg)).1 (n + 1) := by
  rw [logfsAppend, if_neg (by simp [h.mounted])]
  refine ⟨h.mounted, h.base, h.size, ?_⟩
  simp only [h.size, logfsMaxEntries]
  rw [UInt32.toNat_mod, UInt32.toNat_add, h.head]
  simp only [UInt32.reduceToNat]
  omega

/-- The entry appended after `n` others goes to sector `1024 + n % 65536`. -/
theorem Counts.request (h : Counts s n) (tag msg : CStr) :
    ∃ lba buf, (logfsAppend s (some tag) (some msg)).2.1 = some (lba, buf) ∧
      lba = 1024 + .ofNat (n % 65536) ∧ readLe buf 0 4 = logfsMagic.toNat := by
  rw [logfsAppend, if_neg (by simp [h.mounted])]
  refine ⟨_, _, rfl, ?_, ?_⟩
  · have hhead := h.head
    rw [h.base, h.size, logfsMaxEntries]
    apply UInt32.toNat_inj.mp
    rw [UInt32.toNat_add, UInt32.toNat_add, UInt32.toNat_mod, UInt32.toNat_sub, UInt32.toNat_mod,
      UInt32.toNat_add, UInt32.toNat_ofNat']
    simp only [UInt32.reduceToNat]
    omega
  · rw [← writeEntry_magic s.ring (s.ringHead.toNat * entrySize) s.sequence tag msg, readLe, readLe,
      readBytes_congr]
    intro i hi
    rw [Nat.zero_add]

theorem append_null {tag msg : Option CStr} (h : tag = none ∨ msg = none) :
    logfsAppend s tag msg = (s, none, -1) := by
  rcases h with rfl | rfl
  · simp [logfsAppend]
  · cases tag <;> simp [logfsAppend]

/-! Reading the end of the log: `logfs_read_last` formats the newest entries of the ring into the
caller's buffer. -/
open List Option

structure Text where
  tag : CStr
  msg : CStr

/-- The entry at an index of the ring, if it has the magic number. The arrays have 32 and 448
characters. -/
def entryAt (ring : Store) (idx : Nat) : Option Text :=
  let entry := idx * entrySize
  if readLe ring entry 4 = logfsMagic.toNat then
    some ⟨ofBytes (readBytes ring (entry + 16) logfsMaxTag),
      ofBytes (readBytes ring (entry + 48) logfsMaxMsg)⟩
  else none

/-- What a round appends from position `pos` on; the bounds of its two loops are 32-bit
differences. -/
def formatEntry (bufLen : UInt32) (pos : Nat) (t : Text) : List UInt8 :=
  let tag := t.tag.bytes.take ((bufLen - 3).toNat - (pos + 1))
  let msg := t.msg.bytes.take ((bufLen - 2).toNat - (pos + tag.length + 3))
  91 :: (tag ++ 93 :: 32 :: (msg ++ [10]))

def tailLoop (bufLen : UInt32) : List (Option Text) → List UInt8 → List UInt8
  | [], out => out
  | e :: es, out =>
    if out.length < (bufLen - 1).toNat then
      match e with
      | none => tailLoop bufLen es out
      | some t => tailLoop bufLen es (out ++ formatEntry bufLen out.length t)
    else out

def startIdx (s : Log) (n : UInt32) : UInt32 :=
  if s.ringCount < logfsRingSize then if n ≤ s.ringCount then s.ringCount - n else 0
  else (s.ringHead + logfsRingSize - n) % logfsRingSize

def tailCount (s : Log) (n : UInt32) : UInt32 := if s.ringCount < n then s.ringCount else n

def tailEntries (s : Log) (n : UInt32) : List (Option Text) := (range n.toNat).map fun i =>
    entryAt s.ring ((startIdx s n + .ofNat i) % logfsRingSize).toNat

/-- The result and the bytes written to the buffer, one behind the other from its start; the text
of 8192 entries has fewer than `2 ^ 31` characters. -/
def logfsReadLast (s : Log) (n bufLen : UInt32) : Int × List UInt8 :=
  if s.mounted = false ∨ bufLen = 0 then (-1, [])
  else
    let n := tailCount s n
    if n = 0 then (0, [])
    else
      let text := tailLoop bufLen (tailEntries s n) []
      (text.length, text ++ [0])

/-! The buffer. -/

/-- Nothing is written behind the buffer, which holds a string of the length returned. -/
def StaysInBuffer (buf : Store) (bufLen : UInt32) (r : Int × List UInt8) : Prop :=
  let buf' := blit buf 0 r.2.length (ofList r.2)
  r.2.length ≤ bufLen.toNat ∧ ∃ len : Nat, r.1 = len ∧ buf' len = 0 ∧ ∀ i < len, buf' i ≠ 0

/-- Where an entry begins, there is room for its brackets, its whole tag, a blank, a newline and
the terminator; the message may be cut. -/
def TagsFit : Nat → List (Option Text) → Prop
  | _, [] => True
  | room, none :: es => TagsFit room es
  | room, some t :: es =>
    room ≤ 1 ∨ t.tag.bytes.length + 5 ≤ room ∧
      TagsFit (room - (t.tag.bytes.length + t.msg.bytes.length + 4)) es

theorem tagsFit_small {room : Nat} (h : room ≤ 1) (es : List (Option Text)) : TagsFit room es := by
  induction es with
  | nil => trivial
  | cons e es ih =>
    cases e with
    | none => exact ih
    | some t => exact .inl h

variable {pos a cap x : Nat} {out : List UInt8} {s : Log} {n bufLen : UInt32} {m : Store}
  {texts : List Text} {t : Text}

section
variable {bufLen : UInt32} {out : List UInt8} {t : Text}

theorem toNat_sub_small {k : UInt32} (h : k.toNat ≤ bufLen.toNat) :
    (bufLen - k).toNat = bufLen.toNat - k.toNat :=
  UInt32.toNat_sub_of_le _ _ (UInt32.le_iff_toNat_le.mpr h)

theorem formatEntry_length (h : pos + t.tag.bytes.length + 5 ≤ bufLen.toNat) :
    (formatEntry bufLen pos t).length = t.tag.bytes.length + 4 +
        min t.msg.bytes.length (bufLen.toNat - 2 - (pos + t.tag.bytes.length + 3)) := by
  have h3 : (bufLen - 3).toNat = bufLen.toNat - 3 := toNat_sub_small (by simp; omega)
  have h2 : (bufLen - 2).toNat = bufLen.toNat - 2 := toNat_sub_small (by simp; omega)
  have htag : t.tag.bytes.take (bufLen.toNat - 3 - (pos + 1)) = t.tag.bytes :=
    take_of_length_le (by omega)
  simp only [formatEntry, length_cons, length_append, length_take, length_nil]
  omega

theorem formatEntry_beyond (hpos : pos + 1 < bufLen.toNat)
    (h : ¬pos + t.tag.bytes.length + 5 ≤ bufLen.toNat) :
    bufLen.toNat ≤ pos + (formatEntry bufLen pos t).length := by
  simp only [formatEntry, length_cons, length_append, length_take]
  by_cases hsmall : 3 ≤ bufLen.toNat
  · have h3 : (bufLen - 3).toNat = bufLen.toNat - 3 := toNat_sub_small (by simpa using hsmall)
    omega
  · omega

theorem tailLoop_grows (bufLen : UInt32) (es : List (Option Text)) (out : List UInt8) :
    out.length ≤ (tailLoop bufLen es out).length := by
  induction es generalizing out with
  | nil => exact le_refl _
  | cons e es ih =>
    unfold tailLoop
    split
    · cases e with
      | none => exact ih out
      | some t => exact le_trans (by simp) (ih _)
    · exact le_refl _

theorem tailLoop_fits_iff (es : List (Option Text)) (out : List UInt8)
    (hout : out.length < bufLen.toNat) :
    (tailLoop bufLen es out).length < bufLen.toNat ↔ TagsFit (bufLen.toNat - out.length) es := by
  have h1 : (bufLen - 1).toNat = bufLen.toNat - 1 := toNat_sub_small (by simp; omega)
  induction es generalizing out with
  | nil => exact iff_of_true hout trivial
  | cons e es ih =>
    unfold tailLoop
    split
    next hroom =>
      cases e with
      | none => exact ih out hout
      | some t =>
        by_cases htag : out.length + t.tag.bytes.length + 5 ≤ bufLen.toNat
        · have hlen := formatEntry_length htag
          have hnext := ih (out ++ formatEntry bufLen out.length t)
            (by rw [length_append]; omega)
          refine hnext.trans ?_
          rw [length_append, hlen]
          -- a cut message leaves no room for another entry
          by_cases hcut : t.msg.bytes.length ≤
              bufLen.toNat - 2 - (out.length + t.tag.bytes.length + 3)
          · rw [min_eq_left hcut, TagsFit, or_iff_right (by omega), and_iff_right (by omega)]
            have heq : bufLen.toNat - (out.length + (t.tag.bytes.length + 4 + t.msg.bytes.length)) =
                bufLen.toNat - out.length - (t.tag.bytes.length + t.msg.bytes.length + 4) := by
              omega
            rw [heq]
          · refine iff_of_true (tagsFit_small (by omega) es) (.inr ⟨by omega, ?_⟩)
            exact tagsFit_small (by omega) es
        · have hbeyond := formatEntry_beyond (t := t) (by omega) htag
          have hgrows := tailLoop_grows bufLen es
            (out ++ formatEntry bufLen out.length t)
          rw [length_append] at hgrows
          refine iff_of_false (by dsimp only; omega) ?_
          rw [TagsFit]
          omega
    · exact iff_of_true hout (tagsFit_small (by omega) _)

theorem formatEntry_nonzero {c : UInt8} (h : c ∈ formatEntry bufLen pos t) : c ≠ 0 := by
  simp only [formatEntry, mem_cons, mem_append, not_mem_nil, or_false] at h
  rcases h with rfl | h | rfl | rfl | h | rfl
  · decide
  · exact t.tag.nonzero c (mem_of_mem_take h)
  · decide
  · decide
  · exact t.msg.nonzero c (mem_of_mem_take h)
  · decide

theorem tailLoop_nonzero (bufLen : UInt32) (es : List (Option Text)) (hout : ∀ c ∈ out, c ≠ 0) :
    ∀ c ∈ tailLoop bufLen es out, c ≠ 0 := by
  induction es generalizing out with
  | nil => exact hout
  | cons e es ih =>
    unfold tailLoop
    split
    · cases e with
      | none => exact ih hout
      | some t =>
        apply ih
        intro c hc
        rcases mem_append.mp hc with h | h
        · exact hout c h
        · exact formatEntry_nonzero h
    · exact hout

end

theorem logfsReadLast_eq (hmount : s.mounted = true) (hbuf : 1 ≤ bufLen.toNat) :
    logfsReadLast s n bufLen =
      let text := tailLoop bufLen (tailEntries s (tailCount s n)) []
      ((text.length : Int), if tailCount s n = 0 then [] else text ++ [0]) := by
  have hzero : bufLen ≠ 0 := by
    rintro rfl
    simp at hbuf
  rw [logfsReadLast, if_neg (by simp [hmount, hzero])]
  dsimp only
  by_cases h0 : tailCount s n = 0
  · simp [h0, tailEntries, tailLoop]
  · rw [if_neg h0, if_neg h0]

/-- `logfs_read_last` stays in its buffer just when every tag that it comes to fits. -/
theorem logfsReadLast_stays_iff (s : Log) (n bufLen : UInt32) (buf : Store)
    (hbuf : 1 ≤ bufLen.toNat) :
    StaysInBuffer buf bufLen (logfsReadLast s n bufLen) ↔
      s.mounted = true ∧ (tailCount s n = 0 → buf 0 = 0) ∧
        TagsFit bufLen.toNat (tailEntries s (tailCount s n)) := by
  cases hmount : s.mounted with
  | false =>
    refine iff_of_false ?_ (by simp)
    rintro ⟨-, len, hlen, -⟩
    simp only [logfsReadLast, hmount, true_or, if_true] at hlen
    omega
  | true =>
    rw [logfsReadLast_eq hmount hbuf]
    by_cases h0 : tailCount s n = 0
    · have hfit : TagsFit bufLen.toNat (tailEntries s (tailCount s n)) := by
        rw [h0]
        trivial
      rw [and_iff_left hfit]
      have hzero : (∃ len : Nat, (0 : Int) = len ∧ buf len = 0 ∧ ∀ i < len, buf i ≠ 0) ↔
          buf 0 = 0 := by
        constructor
        · rintro ⟨len, hlen, hnul, -⟩
          rwa [show len = 0 by omega] at hnul
        · exact fun h => ⟨0, rfl, h, fun i hi => absurd hi (Nat.not_lt_zero i)⟩
      simpa [StaysInBuffer, h0, tailEntries, tailLoop, blit] using hzero
    · have hiff := tailLoop_fits_iff (tailEntries s (tailCount s n)) [] hbuf
      have hchars := tailLoop_nonzero bufLen (tailEntries s (tailCount s n))
        (forall_mem_nil (· ≠ 0))
      generalize tailLoop bufLen (tailEntries s (tailCount s n)) [] = text at hiff hchars ⊢
      rw [length_nil, Nat.sub_zero] at hiff
      simp only [h0, if_false, false_implies, true_and]
      rw [← hiff]
      unfold StaysInBuffer
      rw [length_append, length_singleton]
      refine and_iff_left ⟨text.length, rfl, ?_, ?_⟩
      · rw [blit_inside (Nat.zero_le _) (by omega)]
        simp [ofList]
      intro i hi
      rw [blit_inside (Nat.zero_le _) (by omega), ofList, Nat.sub_zero, getD_eq_getElem?_getD,
        getElem?_append_left hi, getElem?_eq_getElem hi]
      exact hchars _ (getElem_mem hi)

/-! The log after some appends. -/

def appendAll (s : Log) (calls : List (Option CStr × Option CStr)) : Log :=
  calls.foldl (fun s c => (logfsAppend s c.1 c.2).1) s

def Text.cut (tag msg : CStr) : Text := ⟨tag.truncate 31, msg.truncate 447⟩

/-- The entries that are appended: calls with a null pointer append none. -/
def appended (calls : List (Option CStr × Option CStr)) : List Text :=
  calls.filterMap fun c => c.1.bind fun tag => c.2.map fun msg => .cut tag msg

structure Tail (s : Log) (texts : List Text) : Prop where
  mounted : s.mounted = true
  count : s.ringCount.toNat = min texts.length 8192
  head : s.ringHead.toNat = texts.length % 8192
  entries : ∀ k t, texts[k]? = some t → texts.length ≤ k + 8192 → entryAt s.ring (k % 8192) = some t

theorem copyText_outside (s : CStr) (hcap : 0 < cap)
    (h : x < a ∨ a + cap ≤ x) : copyText m a cap s x = m x := by
  refine blit_outside ?_
  have : (s.truncate (cap - 1)).bytes.length ≤ cap - 1 := by simp [CStr.truncate]
  omega

theorem ofBytes_copyText (m : Store) (a : Nat) (hcap : 0 < cap) (s : CStr) :
    ofBytes (readBytes (copyText m a cap s) a cap) = s.truncate (cap - 1) := by
  have hlen : (s.truncate (cap - 1)).bytes.length + 1 ≤ cap := by
    simp [CStr.truncate]
    omega
  generalize hcut : s.truncate (cap - 1) = t at hlen ⊢
  have hbytes := readBytes_blit_front m a (cap - (t.bytes.length + 1)) (t.bytes ++ [0])
  have hsum : t.bytes.length + 1 + (cap - (t.bytes.length + 1)) = cap := by omega
  rw [length_append, length_singleton, hsum] at hbytes
  rw [copyText, hcut, hbytes]
  ext1
  show takeWhile _ _ = _
  rw [append_assoc, takeWhile_append_of_pos (by simpa using t.nonzero)]
  simp

theorem writeEntry_outside (seq : UInt32) (tag msg : CStr)
    (h : x < a ∨ a + entrySize ≤ x) : writeEntry m a seq tag msg x = m x := by
  unfold entrySize at h
  rw [writeEntry, writeLe_outside (by omega), writeLe_outside (by omega),
    copyText_outside _ (by decide) (by unfold logfsMaxMsg; omega),
    copyText_outside _ (by decide) (by unfold logfsMaxTag; omega), writeLe_outside (by omega),
    writeLe_outside (by omega), writeLe_outside (by omega)]

theorem entryAt_writeEntry (m : Store) (idx : Nat) (seq : UInt32) (tag msg : CStr) :
    entryAt (writeEntry m (idx * entrySize) seq tag msg) idx = some (.cut tag msg) := by
  simp only [entryAt, writeEntry_magic, if_true]
  generalize idx * entrySize = a
  have hmsg (m' : Store) (crc : Nat) : readBytes (writeLe (writeLe
      (copyText m' (a + 48) logfsMaxMsg msg) (a + 496) 4 crc) (a + 500) 4 0) (a + 48) logfsMaxMsg =
      readBytes (copyText m' (a + 48) logfsMaxMsg msg) (a + 48) logfsMaxMsg := by
    refine readBytes_congr fun i hi => ?_
    unfold logfsMaxMsg at hi
    rw [writeLe_outside (by omega), writeLe_outside (by omega)]
  have htag (m' : Store) (crc : Nat) : readBytes (writeLe (writeLe
      (copyText (copyText m' (a + 16) logfsMaxTag tag) (a + 48) logfsMaxMsg msg) (a + 496) 4 crc)
      (a + 500) 4 0) (a + 16) logfsMaxTag =
      readBytes (copyText m' (a + 16) logfsMaxTag tag) (a + 16) logfsMaxTag := by
    refine readBytes_congr fun i hi => ?_
    unfold logfsMaxTag at hi
    rw [writeLe_outside (by omega), writeLe_outside (by omega),
      copyText_outside _ (by decide) (by omega)]
  simp only [writeEntry, hmsg, htag]
  rw [ofBytes_copyText _ _ (by decide), ofBytes_copyText _ _ (by decide)]
  rfl

theorem entryAt_congr {m' : Store} {idx : Nat}
    (h : ∀ x, idx * entrySize ≤ x → x < idx * entrySize + entrySize → m x = m' x) :
    entryAt m idx = entryAt m' idx := by
  unfold entrySize at h
  have hread (off n : Nat) (hn : off + n ≤ 504) : readBytes m (idx * entrySize + off) n =
      readBytes m' (idx * entrySize + off) n := by
    unfold entrySize
    exact readBytes_congr fun i hi => h _ (by omega) (by omega)
  have hmagic := hread 0 4 (by decide)
  rw [add_zero] at hmagic
  rw [entryAt, entryAt, readLe, readLe, hmagic, hread 16 logfsMaxTag (by decide), hread 48 logfsMaxMsg (by decide)]

theorem tail_mount (hfresh : s.mounted = false) (path : CStr) :
    Tail (logfsMount s (some path)).1 [] := by
  rw [logfsMount, if_neg (by simp), if_neg (by simp [hfresh])]
  exact ⟨rfl, rfl, rfl, fun k t ht => by simp at ht⟩

theorem Tail.append (h : Tail s texts) (tag msg : CStr) :
    Tail (logfsAppend s (some tag) (some msg)).1 (texts ++ [.cut tag msg]) := by
  have hcount := h.count
  have hhead := h.head
  rw [logfsAppend, if_neg (by simp [h.mounted])]
  refine ⟨h.mounted, ?_, ?_, ?_⟩
  · rw [length_append, length_singleton]
    dsimp only
    split
    next hlt =>
      have hlt : s.ringCount.toNat < 8192 := hlt
      rw [UInt32.toNat_add]
      simp only [UInt32.reduceToNat]
      omega
    next hlt =>
      have hlt : ¬s.ringCount.toNat < 8192 := hlt
      omega
  · rw [length_append, length_singleton]
    rw [logfsRingSize, UInt32.toNat_mod, UInt32.toNat_add]
    simp only [UInt32.reduceToNat]
    omega
  · intro k t hk hnew
    rw [length_append, length_singleton] at hnew
    rw [hhead]
    rcases lt_or_ge k texts.length with hold | hlast
    · rw [getElem?_append_left hold] at hk
      rw [← h.entries k t hk (by omega)]
      refine entryAt_congr fun x hlow hhigh => writeEntry_outside _ _ _ ?_
      unfold entrySize at hlow hhigh ⊢
      omega
    rw [getElem?_append_right hlast] at hk
    have hz : k - texts.length = 0 := by
      by_contra hpos
      rw [getElem?_eq_none (by rw [length_singleton]; omega)] at hk
      cases hk
    have hkk : k = texts.length := by omega
    rw [hz] at hk
    cases hk
    rw [hkk]
    exact entryAt_writeEntry _ _ _ _ _

theorem tail_appendAll (h : Tail s texts) (calls : List (Option CStr × Option CStr)) :
    Tail (appendAll s calls) (texts ++ appended calls) := by
  induction calls generalizing s texts with
  | nil => simpa [appendAll, appended] using h
  | cons c calls ih =>
    obtain ⟨tag, msg⟩ := c
    by_cases hnull : tag = none ∨ msg = none
    · have hskip : appended ((tag, msg) :: calls) = appended calls := by
        rcases hnull with rfl | rfl
        · rfl
        · cases tag <;> rfl
      rw [hskip, appendAll, foldl_cons, append_null hnull]
      exact ih h
    · obtain ⟨tag, rfl⟩ := ne_none_iff_exists'.mp fun h => hnull (.inl h)
      obtain ⟨msg, rfl⟩ := ne_none_iff_exists'.mp fun h => hnull (.inr h)
      have hnext := ih (h.append tag msg)
      rw [append_assoc] at hnext
      exact hnext

theorem Tail.tailEntries_eq (h : Tail s texts) (hn : n.toNat ≤ min texts.length 8192) :
    tailEntries s n = (texts.drop (texts.length - n.toNat)).map some := by
  have hcount := h.count
  have hhead := h.head
  have hstart : (startIdx s n).toNat = (texts.length - n.toNat) % 8192 := by
    unfold startIdx
    split
    next hlt =>
      have hlt : s.ringCount.toNat < 8192 := hlt
      have hle : n ≤ s.ringCount := UInt32.le_iff_toNat_le.mpr (by omega)
      rw [if_pos hle, UInt32.toNat_sub_of_le _ _ hle]
      omega
    have hadd : (s.ringHead + logfsRingSize).toNat = texts.length % 8192 + 8192 := by
      rw [UInt32.toNat_add, logfsRingSize]
      simp only [UInt32.reduceToNat]
      omega
    rw [logfsRingSize, UInt32.toNat_mod, ← logfsRingSize,
      UInt32.toNat_sub_of_le _ _ (UInt32.le_iff_toNat_le.mpr (by omega)), hadd, logfsRingSize]
    simp only [UInt32.reduceToNat]
    omega
  apply ext_getElem
  · simp [tailEntries]
    omega
  intro i hi hi'
  have hin : i < n.toNat := by simpa [tailEntries] using hi
  simp only [tailEntries, getElem_map, getElem_range, getElem_drop]
  have hidx : ((startIdx s n + .ofNat i) % logfsRingSize).toNat =
      (texts.length - n.toNat + i) % 8192 := by
    rw [logfsRingSize, UInt32.toNat_mod, UInt32.toNat_add, UInt32.toNat_ofNat']
    simp only [UInt32.reduceToNat]
    omega
  rw [hidx]
  exact h.entries _ _ (getElem?_eq_getElem (by omega)) (by omega)

def Text.line (t : Text) : List UInt8 := 91 :: (t.tag.bytes ++ 93 :: 32 :: (t.msg.bytes ++ [10]))

theorem tailLoop_whole (h : out.length + (texts.flatMap Text.line).length + 1 ≤ bufLen.toNat) :
    tailLoop bufLen (texts.map some) out = out ++ texts.flatMap Text.line := by
  induction texts generalizing out with
  | nil => simp [tailLoop]
  | cons t texts ih =>
    have hline : t.line.length = t.tag.bytes.length + t.msg.bytes.length + 4 := by
      simp [Text.line]
      omega
    rw [flatMap_cons, length_append] at h
    have h1 : (bufLen - 1).toNat = bufLen.toNat - 1 := toNat_sub_small (by simp; omega)
    have h2 : (bufLen - 2).toNat = bufLen.toNat - 2 := toNat_sub_small (by simp; omega)
    have h3 : (bufLen - 3).toNat = bufLen.toNat - 3 := toNat_sub_small (by simp; omega)
    have hformat : formatEntry bufLen out.length t = t.line := by
      have htag : t.tag.bytes.take (bufLen.toNat - 3 - (out.length + 1)) = t.tag.bytes :=
        take_of_length_le (by omega)
      have hmsg : t.msg.bytes.take
          (bufLen.toNat - 2 - (out.length + t.tag.bytes.length + 3)) = t.msg.bytes :=
        take_of_length_le (by omega)
      simp only [formatEntry, h2, h3, htag, hmsg, Text.line]
    rw [map_cons, tailLoop, if_pos (by omega), hformat, ih (by rw [length_append]; omega), flatMap_cons, append_assoc]

theorem length_lines (h : ∀ t ∈ texts, t.tag.bytes.length ≤ 31 ∧ t.msg.bytes.length ≤ 447) :
    (texts.flatMap Text.line).length ≤ 484 * texts.length := by
  induction texts with
  | nil => simp
  | cons t texts ih =>
    have hrest := ih fun u hu => h u (mem_cons_of_mem t hu)
    have ht := h t mem_cons_self
    simp only [flatMap_cons, Text.line, length_append, length_cons, length_nil]
    omega

theorem appended_cut {calls : List (Option CStr × Option CStr)}
    (h : t ∈ appended calls) : t.tag.bytes.length ≤ 31 ∧ t.msg.bytes.length ≤ 447 := by
  obtain ⟨⟨tag, msg⟩, -, hc⟩ := mem_filterMap.mp h
  obtain ⟨tag, rfl, hc⟩ := bind_eq_some_iff.mp hc
  obtain ⟨msg, rfl, rfl⟩ := map_eq_some_iff.mp hc
  simp [Text.cut, CStr.truncate]

/-- The last entries that are asked for and still in the ring, in the order of the appends. -/
theorem log_tail_in_order (s : Log) (hfresh : s.mounted = false) (path : CStr)
    (calls : List (Option CStr × Option CStr)) (n bufLen : UInt32)
    (hbuf : 484 * n.toNat + 1 ≤ bufLen.toNat) :
    let texts := (appended calls).drop ((appended calls).length - min n.toNat 8192)
    let text := texts.flatMap Text.line
    logfsReadLast (appendAll (logfsMount s (some path)).1 calls) n bufLen =
      ((text.length : Int), if texts = [] then [] else text ++ [0]) := by
  intro texts text
  have htail := tail_appendAll (tail_mount hfresh path) calls
  rw [nil_append] at htail
  have hcount := htail.count
  generalize appendAll (logfsMount s (some path)).1 calls = log at htail hcount ⊢
  have hn : (tailCount log n).toNat = min n.toNat (min (appended calls).length 8192) := by
    unfold tailCount
    split
    next hlt =>
      have hlt : log.ringCount.toNat < n.toNat := hlt
      omega
    next hlt =>
      have hlt : ¬log.ringCount.toNat < n.toNat := hlt
      omega
  have htexts : (appended calls).drop ((appended calls).length - (tailCount log n).toNat) =
      texts := by
    have hdrop : (appended calls).length - (tailCount log n).toNat =
        (appended calls).length - min n.toNat 8192 := by omega
    rw [hdrop]
  have hlen : texts.length = (tailCount log n).toNat := by
    rw [length_drop]
    omega
  have hlines : (texts.flatMap Text.line).length ≤ 484 * texts.length :=
    length_lines fun t ht => appended_cut (mem_of_mem_drop ht)
  rw [logfsReadLast_eq htail.mounted (by omega), htail.tailEntries_eq (by omega), htexts,
    tailLoop_whole (by rw [length_nil]; omega)]
  have hempty : tailCount log n = 0 ↔ texts = [] := by
    rw [← length_eq_zero_iff, hlen, ← UInt32.toNat_inj]
    rfl
  simp only [hempty]
  rfl

theorem log_tail_of_two : logfsReadLast (appendAll (logfsMount unmounted (some (cstr "/log"))).1
      [(some (cstr "a"), some (cstr "b")), (some (cstr "c"), some (cstr "d")),
        (some (cstr "e"), some (cstr "f"))]) 2 969 =
    (12, [91, 99, 93, 32, 100, 10, 91, 101, 93, 32, 102, 10, 0]) :=
  log_tail_in_order unmounted rfl (cstr "/log") [(some (cstr "a"), some (cstr "b")),
    (some (cstr "c"), some (cstr "d")), (some (cstr "e"), some (cstr "f"))] 2 969 (by decide)

theorem Tail.single (h : Tail s [t]) : tailCount s 1 = 1 ∧ tailEntries s 1 = [some t] := by
  have hone : s.ringCount = 1 := UInt32.toNat_inj.mp h.count
  exact ⟨by simp [tailCount, hone], h.tailEntries_eq (n := 1) (le_refl 1)⟩

theorem long_buffer_kept : StaysInBuffer (fun _ => 1) 485 (logfsReadLast (appendAll
      (logfsMount unmounted (some (cstr "/log"))).1 [(some (cstr "a"), some .empty)]) 1 485) := by
  have htail := tail_appendAll (tail_mount (s := unmounted) rfl (cstr "/log"))
    [(some (cstr "a"), some .empty)]
  generalize appendAll _ _ = log at htail ⊢
  obtain ⟨hn, hentries⟩ := htail.single
  refine (logfsReadLast_stays_iff log 1 485 _ (by decide)).mpr ⟨htail.mounted, ?_, ?_⟩
  · rw [hn]
    intro h
    cases h
  · rw [hn, hentries]
    exact .inr ⟨by decide, trivial⟩

/-- A buffer of five bytes for an entry with a tag of one character. -/
theorem short_buffer_overrun : ¬StaysInBuffer (fun _ => 0) 5 (logfsReadLast (appendAll
      (logfsMount unmounted (some (cstr "/log"))).1 [(some (cstr "a"), some .empty)]) 1 5) := by
  have htail := tail_appendAll (tail_mount (s := unmounted) rfl (cstr "/log"))
    [(some (cstr "a"), some .empty)]
  generalize appendAll _ _ = log at htail ⊢
  obtain ⟨hn, hentries⟩ := htail.single
  rw [logfsReadLast_eq htail.mounted (by decide), hn, hentries]
  rintro ⟨hlen, -⟩
  revert hlen
  decide

end AegisOS.LogFs
