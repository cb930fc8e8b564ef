import AegisOS.Errno
import AegisOS.Lib.CString
import AegisOS.Lib.GuardedRun
import AegisOS.Lib.RingBuffer
import AegisOS.Lib.Scan

/-! Named channels (`kernel/ipc/channel.c`) and their message queues (`kernel/ipc/message.c`). -/
namespace AegisOS.NamedChannels
open ByteStore CString GuardedRun RingBuffer Scan Function List Option Nat

def maxChannels : Nat := 1024
def msgMaxPayload : Nat := 256
def msgQueueDepth : Nat := 64

structure Channel where
  id : Nat
  ownerId : Nat
  isOpen : Bool

structure NamedChannel where
  used : Bool
  channelId : Nat
  name : CArray 32

/-- `aegis_msg_t` -/
structure Msg where
  senderTid : Nat
  receiverTid : Nat
  tag : Nat
  payloadLen : Nat
  payload : Store

structure MsgQueue where
  ring : RingQueue Msg
  channelId : Nat
  active : Bool

structure Ipc where
  channelTable : Nat → Channel
  namedChannels : Fin 32 → NamedChannel
  nextChannelId : Nat
  queues : Fin 1024 → MsgQueue

/-- The comparison loop, over the characters before the terminators. -/
def nameEq : List UInt8 → List UInt8 → Bool
  | [], [] => true
  | a :: as, b :: bs => if a ≠ b then false else nameEq as bs
  | _, _ => false

def channelInit (s : Ipc) : Ipc :=
  { s with
    channelTable := fun _ => ⟨0, 0, false⟩
    namedChannels := fun _ => ⟨false, 0, strcopy .empty⟩
    nextChannelId := 1 }

def ipcInit (s : Ipc) : Ipc :=
  { s with
    queues := fun i =>
      { s.queues i with
        active := false
        ring := { (s.queues i).ring with head := 0, tail := 0, count := 0 } } }

def channelCreate (s : Ipc) (ownerId : Nat) : Option (Ipc × Nat) :=
  if maxChannels ≤ s.nextChannelId then none
  else
    some ({ s with
      channelTable := update s.channelTable s.nextChannelId
        ⟨s.nextChannelId, ownerId, true⟩
      nextChannelId := s.nextChannelId + 1 }, s.nextChannelId)

def channelClose (s : Ipc) (id : Nat) : Ipc :=
  if id < maxChannels then
    { s with
      channelTable := update s.channelTable id
        { s.channelTable id with isOpen := false } }
  else s

def channelIdFromHandle (s : Ipc) (handle : Nat) : Nat :=
  if (s.channelTable handle).isOpen then (s.channelTable handle).id else 0

def ipcCreateQueue (s : Ipc) (channelId : Nat) : Ipc × Option (Fin 1024) :=
  match scan fun i => !(s.queues i).active with
  | none => (s, none)
  | some i =>
    ({ s with
        queues := update s.queues i
          ⟨{ (s.queues i).ring with head := 0, tail := 0, count := 0 }, channelId, true⟩ }, some i)

/-- `none` is a NULL name. -/
def channelOpenNamed (s : Ipc) (name : Option CStr) (ownerId : Nat) : Ipc × Int :=
  match name with
  | none => (s, aegisEinval)
  | some name =>
    if name.bytes = [] then (s, aegisEinval)
    else
      match scan fun i => (s.namedChannels i).used &&
          nameEq (s.namedChannels i).name.str.bytes name.bytes with
      | some i => (s, (s.namedChannels i).channelId)
      | none =>
        match scan fun i => !(s.namedChannels i).used with
        | none => (s, aegisEnomem)
        | some freeIndex =>
          match channelCreate s ownerId with
          | none => (s, aegisEnomem)
          | some (s, handle) =>
            let id := channelIdFromHandle s handle
            if id = 0 then (s, aegisEnomem)
            else
              match ipcCreateQueue s id with
              | (s, none) => (channelClose s id, aegisEnomem)
              | (s, some _) =>
                ({ s with
                    namedChannels := update s.namedChannels freeIndex
                      ⟨true, id, strcopy name⟩ }, id)

def findQueue (s : Ipc) (channelId : Nat) : Option (Fin 1024) :=
  scan fun i => (s.queues i).active && (s.queues i).channelId == channelId

def Msg.fill (m : Msg) (tid : Nat) (data : List UInt8) : Msg :=
  ⟨tid, 0, 0, data.length, blit m.payload 0 data.length (ofList data)⟩

def Msg.bytes (m : Msg) : List UInt8 := readBytes m.payload 0 m.payloadLen

/-- `none` is a NULL pointer; `tid` is the task that calls. -/
def ipcSend (s : Ipc) (tid channelId : Nat) (data : Option (List UInt8)) : Ipc × Int :=
  match data with
  | none => (s, aegisEinval)
  | some data =>
    if data.length = 0 ∨ msgMaxPayload < data.length then (s, aegisEinval)
    else
      match findQueue s channelId with
      | none => (s, aegisEnoent)
      | some i =>
        let q := s.queues i
        if msgQueueDepth ≤ q.ring.count then (s, aegisEnomem)
        else
          let msg := (q.ring.slots q.ring.tail).fill tid data
          ({ s with
              queues := update s.queues i
                { q with ring := q.ring.push msgQueueDepth msg } }, aegisOk)

inductive Answer
  | code (rc : Int)
  | data (bytes : List UInt8)
  deriving DecidableEq

def ipcRecv (s : Ipc) (channelId maxLen : Nat) : Ipc × Answer :=
  match findQueue s channelId with
  | none => (s, .code aegisEnoent)
  | some i =>
    let q := s.queues i
    if q.ring.count = 0 then (s, .code aegisEbusy)
    else
      let msg := q.ring.slots q.ring.head
      let copyLen := if msg.payloadLen < maxLen then msg.payloadLen else maxLen
      ({ s with
          queues := update s.queues i { q with ring := q.ring.pop msgQueueDepth } },
        .data (readBytes msg.payload 0 copyLen))

/-! Runs. -/

inductive Op
  | openNamed (name : Option CStr) (ownerId : Nat)
  | send (tid channelId : Nat) (data : Option (List UInt8))
  | recv (channelId maxLen : Nat)

def perform (s : Ipc) : Op → Ipc × Answer
  | .openNamed name owner =>
    let r := channelOpenNamed s name owner
    (r.1, .code r.2)
  | .send tid ch data =>
    let r := ipcSend s tid ch data
    (r.1, .code r.2)
  | .recv ch maxLen => ipcRecv s ch maxLen

structure Session where
  ipc : Ipc
  log : List (Op × Answer)

def step (s : Session) (op : Op) : Option Session :=
  let r := perform s.ipc op
  some ⟨r.1, s.log ++ [(op, r.2)]⟩

def Session.start (s : Ipc) : Session := ⟨ipcInit (channelInit s), []⟩

def nextMsg (s : Ipc) (channelId : Nat) : Option Msg :=
  (findQueue s channelId).bind fun i =>
    if (s.queues i).ring.count = 0 then none
    else some ((s.queues i).ring.slots (s.queues i).ring.head)

/-- Names fit their array, and a receive buffer is as long as the message. -/
def Legal (s : Session) : Op → Prop
  | .openNamed name _ => ∀ n ∈ name, n.bytes.length < 32
  | .send _ _ _ => True
  | .recv ch maxLen => ∀ m ∈ nextMsg s.ipc ch, m.payloadLen ≤ maxLen

instance (s : Session) (op : Op) : Decidable (Legal s op) :=
  match op with
  | .openNamed _ _ => inferInstanceAs (Decidable (∀ n ∈ _, _))
  | .send _ _ _ => inferInstanceAs (Decidable True)
  | .recv _ _ => inferInstanceAs (Decidable (∀ m ∈ _, _))

def sentBy (ch : Nat) : Op × Answer → Option (List UInt8)
  | (.send _ c (some data), .code rc) => if c = ch ∧ rc = aegisOk then some data else none
  | _ => none

def receivedBy (ch : Nat) : Op × Answer → Option (List UInt8)
  | (.recv c _, .data bytes) => if c = ch then some bytes else none
  | _ => none

def sentOn (ch : Nat) (log : List (Op × Answer)) : List (List UInt8) := log.filterMap (sentBy ch)

def receivedOn (ch : Nat) (log : List (Op × Answer)) : List (List UInt8) :=
  log.filterMap (receivedBy ch)

structure Delivers (s : Session) : Prop where
  /-- Two opens that succeed give the same channel just for the same name. -/
  names : ∀ name owner (id : Int) name' owner' (id' : Int),
    (.openNamed (some name) owner, .code id) ∈ s.log →
    (.openNamed (some name') owner', .code id') ∈ s.log →
    0 < id → 0 < id' → (id = id' ↔ name = name')
  /-- What was received is the beginning of what was sent. -/
  inOrder : ∀ ch, receivedOn ch s.log <+: sentOn ch s.log
  pending : ∀ ch, (sentOn ch s.log).length ≤ (receivedOn ch s.log).length + msgQueueDepth
  /-- The message sent next is the message received next. -/
  next : ∀ ch maxLen msg, (sentOn ch s.log)[(receivedOn ch s.log).length]? = some msg →
    msg.length ≤ maxLen → (perform s.ipc (.recv ch maxLen)).2 = .data msg

/-! What the named channels deliver over any run: the name table, the channel numbers and the
queues are filled in step, and every queue holds what was sent and not yet received. -/

theorem nameEq_iff (a b : List UInt8) : nameEq a b = true ↔ a = b := by
  induction a generalizing b with
  | nil => cases b <;> simp [nameEq]
  | cons x a ih =>
    cases b with
    | nil => simp [nameEq]
    | cons y b =>
      by_cases hxy : x = y
      · simp [nameEq, hxy, ih]
      · simp [nameEq, hxy]

theorem fill_bytes (m : Msg) (tid : Nat) (data : List UInt8) : (m.fill tid data).bytes = data := by
  rw [Msg.bytes, Msg.fill, readBytes_blit_same, readBytes_ofList]

/-- The names opened so far, in order, are what the tables hold. -/
structure Holds (s : Ipc) (opened : List CStr) : Prop where
  few : opened.length ≤ 32
  nodup : opened.Nodup
  next : s.nextChannelId = opened.length + 1
  named : ∀ i : Fin 32, i.val < opened.length → (s.namedChannels i).used = true ∧
    (s.namedChannels i).channelId = i.val + 1 ∧
    opened[i.val]? = some (s.namedChannels i).name.str
  unnamed : ∀ i : Fin 32, opened.length ≤ i.val → (s.namedChannels i).used = false
  queue : ∀ i : Fin 1024, i.val < opened.length → (s.queues i).active = true ∧
    (s.queues i).channelId = i.val + 1 ∧ (s.queues i).ring.Ok msgQueueDepth
  idle : ∀ i : Fin 1024, opened.length ≤ i.val → (s.queues i).active = false

variable {s : Ipc} {opened : List CStr}

def waiting (s : Ipc) (ch : Nat) : List (List UInt8) :=
  match findQueue s ch with
  | none => []
  | some i => ((s.queues i).ring.toList msgQueueDepth).map Msg.bytes

variable {ch maxLen : Nat} {i k : Fin 1024} {name : CStr} {r : RingQueue Msg} {S : Session}
  {op : Op}

theorem Holds.findQueue_eq_some (h : Holds s opened) :
    findQueue s ch = some i ↔ ch = i.val + 1 ∧ i.val < opened.length := by
  have hactive : ∀ j : Fin 1024, ((s.queues j).active && (s.queues j).channelId == ch) = true ↔
      ch = j.val + 1 ∧ j.val < opened.length := by
    intro j
    by_cases hj : j.val < opened.length
    · obtain ⟨hon, hid, -⟩ := h.queue j hj
      rw [hon, hid, Bool.true_and, beq_iff_eq]
      exact ⟨fun heq => ⟨heq.symm, hj⟩, fun heq => heq.1.symm⟩
    · simp [h.idle j (by omega), hj]
  rw [findQueue, scan_eq_some, hactive]
  refine and_iff_left_of_imp fun hi j hj => ?_
  rw [Bool.eq_false_iff, ne_eq, hactive]
  omega

theorem Holds.findQueue_eq_none (h : Holds s opened) (hch : ch = 0 ∨ opened.length < ch) :
    findQueue s ch = none := by
  rw [eq_none_iff_forall_ne_some]
  intro i hi
  have := h.findQueue_eq_some.mp hi
  omega

theorem holds_start (s : Ipc) : Holds (ipcInit (channelInit s)) [] :=
  ⟨by simp, nodup_nil, rfl, fun i hi => absurd hi (not_lt_zero _), fun _ _ => rfl,
    fun i hi => absurd hi (not_lt_zero _), fun _ _ => rfl⟩

/-! Opening. -/

section
variable (h : Holds s opened)
include h

theorem Holds.matches_iff (name : CStr) (j : Fin 32) :
    ((s.namedChannels j).used && nameEq (s.namedChannels j).name.str.bytes name.bytes) = true ↔
      opened[j.val]? = some name := by
  by_cases hj : j.val < opened.length
  · obtain ⟨hused, -, hname⟩ := h.named j hj
    rw [hused, Bool.true_and, nameEq_iff, hname, some.injEq, CStr.ext_iff]
  · rw [h.unnamed j (by omega), getElem?_eq_none (by omega)]
    simp

theorem Holds.scan_name {i : Fin 32} (hi : opened[i.val]? = some name) :
    scan (fun i => (s.namedChannels i).used &&
      nameEq (s.namedChannels i).name.str.bytes name.bytes) = some i := by
  have hmatch := h.matches_iff name
  rw [scan_eq_some, hmatch]
  refine ⟨hi, fun j hj => ?_⟩
  rw [Bool.eq_false_iff, ne_eq, hmatch]
  intro hj'
  have hlt : j.val < opened.length := (List.getElem?_eq_some_iff.mp hj').1
  have heq : j.val = i.val := (List.getElem?_inj hlt h.nodup).mp (hj'.trans hi.symm)
  omega

theorem Holds.scan_new (hnew : name ∉ opened) : scan (fun i => (s.namedChannels i).used &&
      nameEq (s.namedChannels i).name.str.bytes name.bytes) = none := by
  rw [scan_eq_none]
  intro i
  rw [Bool.eq_false_iff, ne_eq, h.matches_iff]
  exact fun hi => hnew (mem_of_getElem? hi)

def opening (s : Ipc) (name : CStr) (ownerId : Nat) (i : Fin 32) (k : Fin 1024) : Ipc where
  channelTable := update s.channelTable s.nextChannelId ⟨s.nextChannelId, ownerId, true⟩
  namedChannels := update s.namedChannels i ⟨true, s.nextChannelId, strcopy name⟩
  nextChannelId := s.nextChannelId + 1
  queues := update s.queues k
    ⟨{ (s.queues k).ring with head := 0, tail := 0, count := 0 }, s.nextChannelId, true⟩

theorem Holds.open_new (hne : name.bytes ≠ []) (hnew : name ∉ opened) (ownerId : Nat)
    (hroom : opened.length < 32) :
    channelOpenNamed s (some name) ownerId =
      (opening s name ownerId ⟨opened.length, hroom⟩ ⟨opened.length, by omega⟩,
        ((opened.length + 1 : Nat) : Int)) := by
  have hfree : scan (fun i => !(s.namedChannels i).used) = some ⟨opened.length, hroom⟩ := by
    rw [scan_eq_some]
    refine ⟨by rw [h.unnamed _ (le_refl _)]; rfl, fun j hj => ?_⟩
    rw [(h.named j hj).1]
    rfl
  have hidle : scan (fun i => !(s.queues i).active) = some ⟨opened.length, by omega⟩ := by
    rw [scan_eq_some]
    refine ⟨by rw [h.idle _ (le_refl _)]; rfl, fun j hj => ?_⟩
    rw [(h.queue j hj).1]
    rfl
  have hbelow : ¬maxChannels ≤ opened.length + 1 := by
    rw [maxChannels]
    omega
  have hid : ¬opened.length + 1 = 0 := succ_ne_zero _
  simp only [channelOpenNamed, if_neg hne, h.scan_new hnew, hfree, channelCreate, if_neg hbelow,
    channelIdFromHandle, update_self, if_true, if_neg hid, ipcCreateQueue, hidle, opening,
    h.next]

end

section
variable (h : Holds s opened) (hlen : name.bytes.length < 32) (hnew : name ∉ opened) (ownerId : Nat)
  {i : Fin 32} (hi : i.val = opened.length) (hk : k.val = opened.length)
include h hlen hnew hi hk

theorem Holds.opening : Holds (opening s name ownerId i k) (opened ++ [name]) := by
  have hstored : (strcopy name : CArray 32).str = name := by
    ext1
    exact take_of_length_le (by omega)
  have hlength : (opened ++ [name]).length = opened.length + 1 := length_append
  refine ⟨by omega, ?_, ?_, fun j hj => ?_, fun j hj => ?_, fun j hj => ?_, fun j hj => ?_⟩
  · exact nodup_append.mpr ⟨h.nodup, nodup_singleton name, fun x hx y hy => by
      rintro rfl
      exact hnew (mem_singleton.mp hy ▸ hx)⟩
  · rw [NamedChannels.opening, h.next, hlength]
  · by_cases hji : j = i
    · simp only [NamedChannels.opening, hji, update_self, h.next, hi, hstored,
        getElem?_concat_length, and_self]
    · have hlt : j.val < opened.length := by omega
      simp only [NamedChannels.opening, update_of_ne hji, getElem?_append_left hlt]
      exact h.named j hlt
  · have hji : j ≠ i := fun heq => by rw [heq] at hj; omega
    simp only [NamedChannels.opening, update_of_ne hji]
    exact h.unnamed j (by omega)
  · by_cases hjk : j = k
    · simp only [NamedChannels.opening, hjk, update_self, h.next, hk, true_and]
      exact RingQueue.ok_empty _ (by decide)
    · simp only [NamedChannels.opening, update_of_ne hjk]
      exact h.queue j (by omega)
  · have hjk : j ≠ k := fun heq => by rw [heq] at hj; omega
    simp only [NamedChannels.opening, update_of_ne hjk]
    exact h.idle j (by omega)

theorem Holds.waiting_opening (ch : Nat) :
    waiting (NamedChannels.opening s name ownerId i k) ch = waiting s ch := by
  have h' := h.opening hlen hnew ownerId hi hk
  have hlength : (opened ++ [name]).length = opened.length + 1 := by simp
  cases hold : findQueue s ch with
  | some j =>
    obtain ⟨hch, hj⟩ := h.findQueue_eq_some.mp hold
    have hnow := h'.findQueue_eq_some.mpr ⟨hch, by omega⟩
    have hjk : j ≠ k := fun heq => by rw [heq] at hj; omega
    rw [waiting, waiting, hold, hnow]
    simp only [NamedChannels.opening, update_of_ne hjk]
  | none =>
    rw [waiting, waiting, hold]
    cases hnow : findQueue (NamedChannels.opening s name ownerId i k) ch with
    | none => rfl
    | some j =>
      obtain ⟨hch, hj⟩ := h'.findQueue_eq_some.mp hnow
      have hjk : j = k := by
        by_contra hne
        rw [h.findQueue_eq_some.mpr ⟨hch, by omega⟩] at hold
        cases hold
      simp [hjk, NamedChannels.opening, RingQueue.toList]

end

section
variable (h : Holds s opened)
include h

theorem Holds.openNamed (name : CStr) (hlen : name.bytes.length < 32) (ownerId : Nat) :
    ∃ s' rc opened', channelOpenNamed s (some name) ownerId = (s', rc) ∧
      Holds s' opened' ∧ opened <+: opened' ∧ (∀ ch, waiting s' ch = waiting s ch) ∧
      (0 < rc → ∃ k, rc = (k + 1 : Nat) ∧ opened'[k]? = some name) := by
  by_cases hne : name.bytes = []
  · exact ⟨s, aegisEinval, opened, by simp only [channelOpenNamed, if_pos hne], h, prefix_rfl,
      fun _ => rfl, fun hpos => absurd hpos (by decide)⟩
  by_cases hmem : name ∈ opened
  · obtain ⟨k, hk⟩ := List.mem_iff_getElem?.mp hmem
    have hlt : k < opened.length := (List.getElem?_eq_some_iff.mp hk).1
    have hfew := h.few
    have hscan := h.scan_name (i := ⟨k, by omega⟩) hk
    have hid := (h.named ⟨k, by omega⟩ hlt).2.1
    refine ⟨s, (k + 1 : Nat), opened, ?_, h, prefix_rfl, fun _ => rfl, fun _ => ⟨k, rfl, hk⟩⟩
    simp only [channelOpenNamed, if_neg hne, hscan, hid]
  · by_cases hroom : opened.length < 32
    · exact ⟨_, _, opened ++ [name], h.open_new hne hmem ownerId hroom,
        h.opening hlen hmem ownerId rfl rfl, prefix_append _ _,
        h.waiting_opening hlen hmem ownerId rfl rfl, fun _ => ⟨opened.length, rfl, by simp⟩⟩
    have hfull : scan (fun i => !(s.namedChannels i).used) = none := by
      rw [scan_eq_none]
      intro i
      rw [(h.named i (by omega)).1]
      rfl
    exact ⟨s, aegisEnomem, opened,
      by simp only [channelOpenNamed, if_neg hne, h.scan_new hmem, hfull], h, prefix_rfl,
      fun _ => rfl, fun hpos => absurd hpos (by decide)⟩

/-! Sending and receiving. -/

def withRing (s : Ipc) (i : Fin 1024) (r : RingQueue Msg) : Ipc :=
  { s with queues := update s.queues i { s.queues i with ring := r } }

theorem Holds.withRing (hr : r.Ok msgQueueDepth) : Holds (withRing s i r) opened := by
  refine ⟨h.few, h.nodup, h.next, h.named, h.unnamed, fun j hj => ?_, fun j hj => ?_⟩
  · by_cases hji : j = i
    · obtain ⟨hactive, hid, -⟩ := h.queue j hj
      subst hji
      simp only [NamedChannels.withRing, update_self]
      exact ⟨hactive, hid, hr⟩
    · simp only [NamedChannels.withRing, update_of_ne hji]
      exact h.queue j hj
  · have hidle := h.idle j hj
    by_cases hji : j = i
    · subst hji
      simp only [NamedChannels.withRing, update_self]
      exact hidle
    · simp only [NamedChannels.withRing, update_of_ne hji]
      exact hidle

theorem Holds.waiting_withRing (hr : r.Ok msgQueueDepth) (hi : findQueue s ch = some i) (c : Nat) :
    waiting (NamedChannels.withRing s i r) c =
      if c = ch then (r.toList msgQueueDepth).map Msg.bytes else waiting s c := by
  have h' := h.withRing (i := i) hr
  have hfind : ∀ c, findQueue (NamedChannels.withRing s i r) c = findQueue s c := by
    intro c
    ext j
    rw [h'.findQueue_eq_some, h.findQueue_eq_some]
  rw [waiting, hfind, waiting]
  by_cases hc : c = ch
  · rw [if_pos hc, hc, hi]
    simp only [NamedChannels.withRing, update_self]
  rw [if_neg hc]
  cases hj : findQueue s c with
  | none => rfl
  | some j =>
    have hji : j ≠ i := by
      have h1 := (h.findQueue_eq_some.mp hi).1
      have h2 := (h.findQueue_eq_some.mp hj).1
      omega
    simp only [NamedChannels.withRing, update_of_ne hji]

theorem Holds.send (tid ch : Nat) (data : List UInt8) :
    ∃ s' rc, ipcSend s tid ch (some data) = (s', rc) ∧ Holds s' opened ∧
      ∀ c, waiting s' c = waiting s c ++ if ch = c ∧ rc = aegisOk then [data] else [] := by
  have hrefused {rc : Int} (hrc : rc ≠ aegisOk) (c : Nat) :
      waiting s c = waiting s c ++ if ch = c ∧ rc = aegisOk then [data] else [] := by simp [hrc]
  by_cases hbad : data.length = 0 ∨ msgMaxPayload < data.length
  · exact ⟨s, aegisEinval, by simp only [ipcSend, if_pos hbad], h, hrefused (by decide)⟩
  cases hfind : findQueue s ch with
  | none =>
    exact ⟨s, aegisEnoent, by simp only [ipcSend, if_neg hbad, hfind], h, hrefused (by decide)⟩
  | some i =>
    by_cases hfull : msgQueueDepth ≤ (s.queues i).ring.count
    · exact ⟨s, aegisEnomem, by simp only [ipcSend, if_neg hbad, hfind, if_pos hfull], h,
        hrefused (by decide)⟩
    obtain ⟨-, hi⟩ := h.findQueue_eq_some.mp hfind
    have hok := (h.queue i hi).2.2
    have hroom : (s.queues i).ring.count < msgQueueDepth := by omega
    have hpush := hok.push (((s.queues i).ring.slots (s.queues i).ring.tail).fill tid data) hroom
    refine ⟨NamedChannels.withRing s i _, aegisOk,
      by simp only [ipcSend, if_neg hbad, hfind, if_neg hfull, NamedChannels.withRing],
      h.withRing hpush, fun c => ?_⟩
    rw [h.waiting_withRing hpush hfind c]
    by_cases hc : c = ch
    · subst hc
      rw [if_pos rfl, if_pos ⟨rfl, rfl⟩, RingQueue.toList_push hok _ hroom, waiting, hfind]
      simp [fill_bytes]
    · rw [if_neg hc, if_neg (fun heq => hc heq.1.symm), append_nil]

theorem Holds.recv (hbuffer : ∀ m ∈ nextMsg s ch, m.payloadLen ≤ maxLen) :
    (waiting s ch = [] ∧ ∃ rc, ipcRecv s ch maxLen = (s, .code rc)) ∨
      ∃ s' msg, ipcRecv s ch maxLen = (s', .data msg) ∧ Holds s' opened ∧
        waiting s ch = msg :: waiting s' ch ∧ ∀ c, c ≠ ch → waiting s' c = waiting s c := by
  cases hfind : findQueue s ch with
  | none => exact .inl ⟨by rw [waiting, hfind], aegisEnoent, by simp only [ipcRecv, hfind]⟩
  | some i =>
    by_cases hempty : (s.queues i).ring.count = 0
    · refine .inl ⟨?_, aegisEbusy, by simp only [ipcRecv, hfind, if_pos hempty]⟩
      rw [waiting, hfind]
      simp [RingQueue.toList, hempty]
    obtain ⟨-, hi⟩ := h.findQueue_eq_some.mp hfind
    have hok := (h.queue i hi).2.2
    have hpop := hok.pop (by omega)
    have hmsg := hbuffer ((s.queues i).ring.slots (s.queues i).ring.head)
      (by simp [nextMsg, hfind, hempty])
    have hcopy : (if ((s.queues i).ring.slots (s.queues i).ring.head).payloadLen < maxLen then
        ((s.queues i).ring.slots (s.queues i).ring.head).payloadLen else maxLen) =
        ((s.queues i).ring.slots (s.queues i).ring.head).payloadLen := by
      split <;> omega
    refine .inr ⟨NamedChannels.withRing s i ((s.queues i).ring.pop msgQueueDepth),
      ((s.queues i).ring.slots (s.queues i).ring.head).bytes, ?_, h.withRing hpop, ?_,
      fun c hc => ?_⟩
    · simp only [ipcRecv, hfind, if_neg hempty, hcopy, NamedChannels.withRing, Msg.bytes]
    · rw [h.waiting_withRing hpop hfind, if_pos rfl, waiting, hfind]
      dsimp only
      rw [RingQueue.toList_pop hok (by omega), map_cons]
    · rw [h.waiting_withRing hpop hfind, if_neg hc]

theorem Holds.waiting_first {m : Msg} (hm : m ∈ nextMsg s ch) :
    (waiting s ch)[0]? = some m.bytes := by
  simp only [nextMsg, mem_def, bind_eq_some_iff] at hm
  obtain ⟨i, hfind, hm⟩ := hm
  split at hm
  · cases hm
  obtain ⟨-, hi⟩ := h.findQueue_eq_some.mp hfind
  rw [waiting, hfind]
  dsimp only
  rw [RingQueue.toList_pop (h.queue i hi).2.2 (by omega), map_cons, getElem?_cons_zero, some.inj hm]

end

/-! Runs. -/

/-- The tables hold the names opened, every open that succeeded answered with the number of its
name, and every channel holds what was sent and not yet received. -/
structure Tracks (s : Session) (opened : List CStr) : Prop where
  holds : Holds s.ipc opened
  opens : ∀ name owner (id : Int), (.openNamed (some name) owner, .code id) ∈ s.log → 0 < id →
    ∃ k, id = (k + 1 : Nat) ∧ opened[k]? = some name
  flow : ∀ ch, sentOn ch s.log = receivedOn ch s.log ++ waiting s.ipc ch

theorem sentOn_append (ch : Nat) (log : List (Op × Answer)) (entry : Op × Answer) :
    sentOn ch (log ++ [entry]) = sentOn ch log ++ (sentBy ch entry).toList := by
  rw [sentOn, filterMap_append, ← sentOn]
  cases hentry : sentBy ch entry <;> simp [hentry]

theorem receivedOn_append (ch : Nat) (log : List (Op × Answer)) (entry : Op × Answer) :
    receivedOn ch (log ++ [entry]) = receivedOn ch log ++ (receivedBy ch entry).toList := by
  rw [receivedOn, filterMap_append, ← receivedOn]
  cases hentry : receivedBy ch entry <;> simp [hentry]

theorem getElem?_extended {opened opened' : List CStr} (h : opened <+: opened') {k : Nat}
    (hk : opened[k]? = some name) : opened'[k]? = some name := by
  obtain ⟨rest, rfl⟩ := h
  rw [List.getElem?_append_left (List.getElem?_eq_some_iff.mp hk).1, hk]

section
variable (h : Tracks S opened)
include h

theorem Tracks.noted {s' : Ipc} {opened' : List CStr} {a : Answer} (hholds : Holds s' opened')
    (hmore : opened <+: opened')
    (hopen : ∀ name owner (id : Int), (.openNamed (some name) owner, .code id) = (op, a) → 0 < id →
      ∃ k, id = (k + 1 : Nat) ∧ opened'[k]? = some name)
    (hflow : ∀ ch, waiting S.ipc ch ++ (sentBy ch (op, a)).toList =
      (receivedBy ch (op, a)).toList ++ waiting s' ch) :
    Tracks ⟨s', S.log ++ [(op, a)]⟩ opened' := by
  refine ⟨hholds, fun name owner id hmem hpos => ?_, fun ch => ?_⟩
  · cases mem_append.mp hmem with
    | inl hold =>
      obtain ⟨k, hk, hname⟩ := h.opens name owner id hold hpos
      exact ⟨k, hk, getElem?_extended hmore hname⟩
    | inr hnew => exact hopen name owner id (mem_singleton.mp hnew) hpos
  · rw [sentOn_append, receivedOn_append, h.flow ch, append_assoc, hflow, append_assoc]

theorem Tracks.idle {a : Answer} (hsent : ∀ ch, sentBy ch (op, a) = none)
    (hreceived : ∀ ch, receivedBy ch (op, a) = none)
    (hopen : ∀ name owner (id : Int), (.openNamed (some name) owner, .code id) ≠ (op, a)) :
    Tracks ⟨S.ipc, S.log ++ [(op, a)]⟩ opened :=
  h.noted h.holds prefix_rfl (fun name owner id heq => absurd heq (hopen name owner id))
    fun ch => by simp [hsent, hreceived]

theorem Tracks.openNamed (hlen : name.bytes.length < 32) (owner : Nat) :
    ∃ opened', Tracks ⟨(channelOpenNamed S.ipc (some name) owner).1, S.log ++
      [(.openNamed (some name) owner, .code (channelOpenNamed S.ipc (some name) owner).2)]⟩
      opened' := by
  obtain ⟨s', rc, opened', hgot, hholds, hmore, hwaiting, hid⟩ := h.holds.openNamed name hlen owner
  rw [hgot]
  refine ⟨opened', h.noted hholds hmore (fun n o id heq hpos => ?_) fun ch => ?_⟩
  · cases heq
    exact hid hpos
  · simp [sentBy, receivedBy, hwaiting ch]

theorem Tracks.send (tid ch : Nat) (data : List UInt8) :
    Tracks ⟨(ipcSend S.ipc tid ch (some data)).1,
      S.log ++ [(.send tid ch (some data), .code (ipcSend S.ipc tid ch (some data)).2)]⟩
      opened := by
  obtain ⟨s', rc, hgot, hholds, hwaiting⟩ := h.holds.send tid ch data
  rw [hgot]
  refine h.noted hholds prefix_rfl (fun n o id heq => by cases heq) fun c => ?_
  simp only [sentBy, receivedBy, hwaiting c]
  split <;> simp

theorem Tracks.recv (hbuffer : ∀ m ∈ nextMsg S.ipc ch, m.payloadLen ≤ maxLen) :
    Tracks ⟨(ipcRecv S.ipc ch maxLen).1, S.log ++ [(.recv ch maxLen, (ipcRecv S.ipc ch maxLen).2)]⟩
      opened := by
  obtain ⟨-, rc, hgot⟩ | ⟨s', msg, hgot, hholds, hhead, hothers⟩ := h.holds.recv hbuffer
  · rw [hgot]
    exact h.idle (fun _ => rfl) (fun _ => rfl) fun _ _ _ heq => by cases heq
  rw [hgot]
  refine h.noted hholds prefix_rfl (fun n o id heq => by cases heq) fun c => ?_
  by_cases hc : c = ch
  · subst hc
    simp [sentBy, receivedBy, hhead]
  · simp [sentBy, receivedBy, Ne.symm hc, hothers c hc]

theorem Tracks.step {S' : Session} (hop : Legal S op) (hstep : step S op = some S') :
    ∃ opened', Tracks S' opened' := by
  rw [NamedChannels.step, some.injEq] at hstep
  subst hstep
  cases op with
  | openNamed name owner =>
    cases name with
    | none => refine ⟨opened, h.idle (fun _ => rfl) (fun _ => rfl) fun _ _ _ heq => by cases heq⟩
    | some name => exact h.openNamed (hop name rfl) owner
  | send tid ch data =>
    cases data with
    | none => exact ⟨opened, h.idle (fun _ => rfl) (fun _ => rfl) fun _ _ _ heq => by cases heq⟩
    | some data => exact ⟨opened, h.send tid ch data⟩
  | recv ch maxLen => exact ⟨opened, h.recv hop⟩

theorem Tracks.delivers : Delivers S := by
  refine ⟨?_, fun ch => ?_, fun ch => ?_, fun ch maxLen msg hmsg hlen => ?_⟩
  · intro name owner id name' owner' id' hmem hmem' hpos hpos'
    obtain ⟨k, rfl, hk⟩ := h.opens name owner id hmem hpos
    obtain ⟨k', rfl, hk'⟩ := h.opens name' owner' id' hmem' hpos'
    constructor
    · intro heq
      have : k = k' := by omega
      rw [this, hk', some.injEq] at hk
      exact hk.symm
    · rintro rfl
      have hlt : k < opened.length := (List.getElem?_eq_some_iff.mp hk).1
      have := (List.getElem?_inj hlt h.holds.nodup).mp (hk.trans hk'.symm)
      rw [this]
  · exact ⟨waiting S.ipc ch, (h.flow ch).symm⟩
  · have hwaiting : (waiting S.ipc ch).length ≤ msgQueueDepth := by
      rw [waiting]
      cases hfind : findQueue S.ipc ch with
      | none => exact zero_le _
      | some i =>
        obtain ⟨-, hi⟩ := h.holds.findQueue_eq_some.mp hfind
        simpa using (h.holds.queue i hi).2.2.count_le
    rw [h.flow ch, List.length_append]
    omega
  · rw [h.flow ch, List.getElem?_append_right (Nat.le_refl _), Nat.sub_self] at hmsg
    have hbuffer : ∀ m ∈ nextMsg S.ipc ch, m.payloadLen ≤ maxLen := by
      intro m hm
      have hfirst := h.holds.waiting_first hm
      rw [hmsg, some.injEq] at hfirst
      rwa [hfirst, Msg.bytes, length_readBytes] at hlen
    obtain ⟨hempty, -⟩ | ⟨s', msg', hgot, -, hhead, -⟩ := h.holds.recv hbuffer
    · rw [hempty] at hmsg
      cases hmsg
    · rw [hhead, getElem?_cons_zero, some.injEq] at hmsg
      rw [perform, hgot, hmsg]

end

/-- Over every run of opens, sends and receives the channels deliver. -/
theorem named_channels_deliver (s : Ipc) {ops : List Op} {S : Session}
    (hrun : Run step Legal (.start s) ops S) : Delivers S := by
  have hstart : Tracks (.start s) [] := by
    refine ⟨holds_start s, fun _ _ _ hmem _ => absurd hmem not_mem_nil, fun ch => ?_⟩
    rw [Session.start, waiting, (holds_start s).findQueue_eq_none (Nat.eq_zero_or_pos ch)]
    rfl
  obtain ⟨opened, h⟩ := hrun.invariant (I := fun S => ∃ opened, Tracks S opened)
    (fun _ _ _ ⟨_, h⟩ hop hstep => h.step hop hstep) ⟨[], hstart⟩
  exact h.delivers

def bootIpc : Ipc where
  channelTable := fun _ => ⟨0, 0, false⟩
  namedChannels := fun _ => ⟨false, 0, strcopy .empty⟩
  nextChannelId := 1
  queues := fun _ => ⟨⟨fun _ => ⟨0, 0, 0, 0, fun _ => 0⟩, 0, 0, 0⟩, 0, false⟩

def serviceRun : List Op :=
  [.openNamed (some (cstr "log")) 1, .openNamed (some (cstr "cfg")) 2,
    .openNamed (some (cstr "log")) 3, .send 4 1 (some [1, 2, 3]), .send 4 2 (some [9]),
    .send 5 1 (some [4]), .recv 1 256]

theorem service_run_delivers : ∃ S, Run step Legal (.start bootIpc) serviceRun S ∧
    sentOn 1 S.log = [[1, 2, 3], [4]] ∧ receivedOn 1 S.log = [[1, 2, 3]] ∧ Delivers S := by
  refine Run.exists_of_execute_imp (P := fun S => sentOn 1 S.log = [[1, 2, 3], [4]] ∧
    receivedOn 1 S.log = [[1, 2, 3]]) (fun S hrun hend => ⟨hend.1, hend.2, ?_⟩) (by decide +kernel)
  exact named_channels_deliver bootIpc hrun

end AegisOS.NamedChannels
