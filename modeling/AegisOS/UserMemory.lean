import AegisOS.SlotOwnership
import AegisOS.NetDatagrams

/-! The checked copies between the kernel and user memory (`kernel/core/syscall.c`,
`kernel/core/process.c`): what a process copies stays inside its own image and stack. -/
namespace AegisOS.Kernel
open CString ByteStore ElfLoader GuardedRun

/-! Checks and copies. -/

def aegisUserTextBase : Nat := 0x400000
def aegisUserTextSize : Nat := 0x200000
def aegisUserHeapBase : Nat := 0x10000000
def aegisUserHeapSize : Nat := 0x1000000
def aegisUserIpcBase : Nat := 0x20000000
def aegisUserIpcSize : Nat := 0x100000
def aegisUserStackTop : Nat := 0x7fff000000

/-- `range_inside` of `syscall.c` -/
def rangeInside (ptr len : UInt64) (base size : Nat) : Bool :=
  let stop := ptr + len
  let regionEnd := (base + size) % 2 ^ 64
  if ptr = 0 ∨ len = 0 then false
  else if stop ≤ ptr ∨ regionEnd ≤ base then false
  else base ≤ ptr.toNat ∧ stop.toNat ≤ regionEnd

/-- `range_inside` of `process.c`, which refuses empty regions at once -/
def processRangeInside (ptr len : UInt64) (base size : Nat) : Bool :=
  if base = 0 ∨ size = 0 then false else rangeInside ptr len base size

/-- A range of the running process: in its slot, or in the stack its entry records. -/
def processCurrentUserRangeOk (slotOk : Runtime → UInt32 → UInt64 → UInt64 → Bool) (k : State)
    (ptr len : UInt64) : Bool :=
  match processCurrent k with
  | none => false
  | some j =>
    slotOk k.runtime (k.procs j).runtimeSlot ptr len ||
      processRangeInside ptr len (k.procs j).image.stackBase (k.procs j).image.stackSize

def processCurrentUserReadRangeOk : State → UInt64 → UInt64 → Bool :=
  processCurrentUserRangeOk elfLoaderSlotReadRangeOk

def processCurrentUserWriteRangeOk : State → UInt64 → UInt64 → Bool :=
  processCurrentUserRangeOk elfLoaderSlotWriteRangeOk

/-- The heap, the message area and the stack of the fixed layout, which only the kernel's
own tasks use. -/
def fixedRangeOk (ptr len : UInt64) : Bool :=
  rangeInside ptr len aegisUserHeapBase aegisUserHeapSize ||
    rangeInside ptr len aegisUserIpcBase aegisUserIpcSize ||
    rangeInside ptr len (aegisUserStackTop - aegisUserStackSize) aegisUserStackSize

/-- Without a process the kernel reads the fixed layout and the built-in slot. -/
def userReadRangeOk (k : State) (ptr len : UInt64) : Bool :=
  if processGetpid k ≠ 0 then processCurrentUserReadRangeOk k ptr len
  else
    rangeInside ptr len aegisUserTextBase aegisUserTextSize || fixedRangeOk ptr len ||
      elfLoaderSlotReadRangeOk k.runtime k.runtime.builtinRuntimeSlot ptr len

def userWriteRangeOk (k : State) (ptr len : UInt64) : Bool :=
  if processGetpid k ≠ 0 then processCurrentUserWriteRangeOk k ptr len
  else
    fixedRangeOk ptr len ||
      elfLoaderSlotWriteRangeOk k.runtime k.runtime.builtinRuntimeSlot ptr len

def copyFromUserChecked (k : State) (mem : Store) (src len : UInt64) : Except Int (List UInt8) :=
  if len = 0 then .error aegisEinval
  else if userReadRangeOk k src len = false then .error aegisEinval
  else .ok (readBytes mem src.toNat len.toNat)

def copyToUserChecked (k : State) (mem : Store) (dst : UInt64) (data : Store) (len : UInt64) :
    Store × Int :=
  if len = 0 then (mem, aegisEinval)
  else if userWriteRangeOk k dst len = false then (mem, aegisEinval)
  else (blit mem dst.toNat len.toNat data, aegisOk)

theorem rangeInside_eq (ptr len : UInt64) (base size : Nat) :
    rangeInside ptr len base size = fullRangeInside ptr len base size := by
  unfold rangeInside fullRangeInside
  dsimp only
  by_cases hsize : size = 0
  · have hempty : (base + size) % 2 ^ 64 ≤ base := by
      rw [hsize]
      exact Nat.mod_le _ _
    rw [if_pos (show ptr + len ≤ ptr ∨ (base + size) % 2 ^ 64 ≤ base from .inr hempty),
      if_pos (show ptr = 0 ∨ len = 0 ∨ size = 0 from .inr (.inr hsize))]
    split <;> rfl
  · simp [hsize]

/-! Processes and their memory. -/

/-- The pool is loaded and apart, and the stack an entry records is that of its slot. -/
structure MemoryOwned (k : State) : Prop where
  loaded : LoadedPool k.runtime
  layout : Apart k.runtime
  stack : ∀ j i, (k.procs j).Live → (k.procs j).runtimeSlot = slotId i →
    (k.procs j).image.stackBase = (k.runtime.slots i).stackBase ∧
      (k.procs j).image.stackSize = aegisUserStackSize

variable {k k' : State}

theorem MemoryOwned.quiet (h : MemoryOwned k) (hq : Quiet k k') : MemoryOwned k' := by
  refine ⟨hq.runtime ▸ h.loaded, hq.runtime ▸ h.layout, fun j i hj hslot => ?_⟩
  rw [(hq.kept j).runtimeSlot] at hslot
  rw [(hq.kept j).image, hq.runtime]
  exact h.stack j i ((hq.kept j).live.mp hj) hslot

variable {i : Fin 16} {out : Loaded} {j : Fin 256} {c : Call}

section
variable (h : MemoryOwned k)
include h

theorem MemoryOwned.spawned {path : CStr} {f : Userland.Feature} {g : FileRead} {ppid : UInt32}
    (howned : SlotsHeld k) (hocc : Occupies k.runtime g path i out) (hg : Bounded g.bytes)
    (hmade : Made (k.fill i out.slot) f.name.str (imageOf out.info) (slotId i) ppid j k')
    (u : Userland.Catalogue) : MemoryOwned { k' with userland := u } := by
  have hruntime : k'.runtime = k.runtime.set i out.slot := hmade.runtime
  have hfilled := hocc.filled
  refine ⟨fun b hb => ?_, ?_, fun l b hl hslot => ?_⟩
  · rw [hruntime] at hb ⊢
    by_cases hbi : b = i
    · rw [hbi, set_self]
      exact hocc.loadedFrom hg
    · rw [set_of_ne _ _ hbi] at hb ⊢
      exact h.loaded b hb
  · rw [hruntime]
    exact h.layout.set hfilled.imageBase hfilled.stackBase
  · rw [hruntime]
    by_cases hlj : l = j
    · rw [hlj, hmade.runtimeSlot] at hslot
      obtain rfl := slotId_inj hslot
      rw [hlj, hmade.image, set_self, hfilled.stackBase]
      exact hfilled.infoStack
    have heq : k'.procs l = k.procs l := hmade.others hlj
    rw [heq] at hl hslot ⊢
    have hbi : b ≠ i := by
      rintro rfl
      obtain ⟨b', hslot', hused⟩ := howned.used l hl
      rw [← slotId_inj (hslot.symm.trans hslot'), hocc.free] at hused
      cases hused
    rw [set_of_ne _ _ hbi]
    exact h.stack l b hl hslot

theorem MemoryOwned.unspawned (hpool : PoolKept k.runtime k'.runtime)
    (hlive : ∀ j, (k.procs j).Live → k'.procs j = k.procs j)
    (hfree : ∀ j, ¬(k.procs j).Live → ¬(k'.procs j).Live) : MemoryOwned k' := by
  refine ⟨fun i hi => ?_, h.layout.of_bases hpool.imageBase hpool.stackBase, fun j i hj hslot => ?_⟩
  · rw [hpool.used i] at hi
    rw [hpool.slots i hi]
    exact h.loaded i hi
  have hold : (k.procs j).Live := by
    by_contra hdead
    exact hfree j hdead hj
  rw [hlive j hold] at hslot ⊢
  rw [hpool.stackBase i]
  exact h.stack j i hold hslot

theorem MemoryOwned.spawn (howned : SlotsOwned k) (path : Option (CArray 128))
    {file : Option FileRead} (hfile : ∀ f, file = some f → Bounded f.bytes) (now later : UInt64) :
    MemoryOwned (sysSpawn k path file now later).1 := by
  rcases sysSpawn_cases k path file now later with ⟨n, rc, -, heq⟩ | ⟨p, f, rfl, hc, heq⟩
  · rw [heq]
    exact h.quiet (quiet_supervisor k _)
  rw [heq]
  have hout := loadAndSpawn_outcome k f p.str file (isRestart k.supervisor f) later
  generalize loadAndSpawn k f p.str file (isRestart k.supervisor f) later = result at hout
  cases hout with
  | unloaded r rc hload hkept => exact h.unspawned hkept (fun _ _ => rfl) (fun _ hj => hj)
  | unmade g i out k' hg hload hocc hnot hun =>
    exact h.unspawned (howned.slots.unmade_pool hocc hun) hun.live hun.free
  | made g i out j k' hg hload hocc hmade =>
    exact (h.spawned howned.slots hocc (hfile g hg) hmade _).quiet
      (publishSpawn_quiet k' f p.str k.nextPid (imageOf out.info) _ later)

theorem MemoryOwned.reaped (hr : Reaped k j i k') : MemoryOwned k' := by
  refine ⟨fun b hb => ?_, ?_, fun l b hl hslot => ?_⟩
  · rw [hr.runtime] at hb ⊢
    have hbi : b ≠ i := by
      rintro rfl
      rw [set_self] at hb
      cases hb
    rw [set_of_ne _ _ hbi] at hb ⊢
    exact h.loaded b hb
  · rw [hr.runtime]
    exact h.layout.set rfl rfl
  · obtain ⟨-, hold, heq⟩ := hr.live hl
    rw [heq] at hslot ⊢
    have hbase : (k'.runtime.slots b).stackBase = (k.runtime.slots b).stackBase := by
      rw [hr.runtime]
      by_cases hbi : b = i
      · rw [hbi, set_self]
        rfl
      · rw [set_of_ne _ _ hbi]
    rw [hbase]
    exact h.stack l b hold hslot

end

def ImagesBounded (_ : State) : Call → Prop
  | .bindCurrent .. => False
  | .spawn _ file _ _ => ∀ f ∈ file, Bounded f.bytes
  | _ => True

instance (k : State) : (c : Call) → Decidable (ImagesBounded k c)
  | .bindCurrent .. => inferInstanceAs (Decidable False)
  | .spawn _ file _ _ => inferInstanceAs (Decidable (∀ f ∈ file, Bounded f.bytes))
  | .serviceReady _ | .consoleReady | .kill .. | .exit .. | .waitpid .. | .shutdown ..
  | .yield | .openFile _ | .close _ | .fileIo .. | .sockets _ | .other | .schedulerRun
  | .kernelTask _ | .setIdle _ => inferInstanceAs (Decidable True)

theorem ImagesBounded.boundOnce (h : ImagesBounded k c) : BoundOnce k c := by
  cases c <;> trivial

theorem MemoryOwned.step (h : MemoryOwned k) (howned : SlotsOwned k)
    (hok : ImagesBounded k c) (hstep : dispatch k c = some k') : MemoryOwned k' := by
  unfold dispatch at hstep
  split at hstep
  · cases hstep
  by_cases hc : c.loud = false
  · exact h.quiet (perform_quiet howned.slots.vacant hc hstep)
  cases c <;> simp only [Call.loud, not_true_eq_false] at hc
  case spawn path file now later =>
    cases hstep
    exact h.spawn howned path (fun f hf => hok f hf) now later
  case serviceReady name =>
    cases hstep
    rcases sysServiceReady_cases k name with heq | ⟨i, supervisor, -, -, -, -, heq⟩
    · rwa [heq]
    · rw [heq]
      exact ⟨h.loaded, h.layout, h.stack⟩
  case waitpid pid options exitPtr =>
    cases hstep
    rcases sysWaitpid_cases k pid options exitPtr with heq | ⟨child, heq⟩
    · rwa [heq]
    rw [heq]
    rcases howned.processWait_cases child with hq | ⟨j, i, -, -, hr⟩
    · exact h.quiet hq
    · exact h.reaped hr
  case bindCurrent => exact hok.elim

theorem Launched.memoryOwned {k0 : State} {f : FileRead}
    (h : Launched k0 f i out j k) (hunborn : Unborn k0) (hlayout : Apart k0.runtime)
    (hf : Bounded f.bytes) : MemoryOwned k := by
  obtain ⟨p, -, -, -, hslot, himage, hprocs⟩ := h.procs
  have hfilled := h.loaded.filled
  have hself : k.procs j = p := by rw [hprocs, Function.update_self]
  have hinit : Apart (elfLoaderInit k0.runtime) := hlayout.of_bases (fun _ => rfl) (fun _ => rfl)
  have hslots : ∀ b, k.runtime.slots b = ((elfLoaderInit k0.runtime).set i out.slot).slots b := by
    intro b
    rw [h.runtime]
    rfl
  refine ⟨fun b hb => ?_, ?_, fun l b hl hlb => ?_⟩
  · rw [hslots b] at hb ⊢
    by_cases hbi : b = i
    · rw [hbi, set_self]
      exact h.loaded.loadedFrom hf
    · rw [set_of_ne _ _ hbi] at hb
      cases hb
  · refine (hinit.set hfilled.imageBase hfilled.stackBase).of_bases (fun b => ?_) (fun b => ?_)
    all_goals rw [hslots b]
  · have hlj : l = j := by
      by_contra hne
      rw [hprocs, Function.update_of_ne hne, hunborn.procs] at hl
      exact processZero_not_live hl
    rw [hlj, hself, hslot] at hlb
    obtain rfl := slotId_inj hlb
    rw [hlj, hself, himage, hslots, set_self, hfilled.stackBase]
    exact hfilled.infoStack

/-! Copies. -/

/-- The copies of the running process `j`: it has a slot of its own, reads depend on the
bytes of that slot only, writes change no other byte, and no other process has a byte of it. -/
structure CopiesConfined (k : State) (j : Fin 256) (i : Fin 16) : Prop where
  slot : (k.procs j).runtimeSlot = slotId i
  used : (k.runtime.slots i).used = true
  reads : ∀ mem mem' src len, (∀ a, InSlot (k.runtime.slots i) a → mem a = mem' a) →
    copyFromUserChecked k mem src len = copyFromUserChecked k mem' src len
  writes : ∀ mem dst data len a, ¬InSlot (k.runtime.slots i) a →
    (copyToUserChecked k mem dst data len).1 a = mem a
  others : ∀ l b, (k.procs l).Live → l ≠ j → (k.procs l).runtimeSlot = slotId b →
    ∀ a, InSlot (k.runtime.slots b) a → ¬InSlot (k.runtime.slots i) a

theorem MemoryOwned.rangeOk (h : MemoryOwned k)
    (hcur : processCurrent k = some j) (hslot : (k.procs j).runtimeSlot = slotId i)
    {slotOk : Runtime → UInt32 → UInt64 → UInt64 → Bool}
    (haccepted : ∀ id ptr len, slotOk k.runtime id ptr len = true → Accepted k.runtime id ptr len)
    {ptr len : UInt64} (hok : processCurrentUserRangeOk slotOk k ptr len = true) {a : Nat}
    (ha : Within ptr len a) : InSlot (k.runtime.slots i) a := by
  unfold processCurrentUserRangeOk at hok
  rw [hcur] at hok
  rw [Bool.or_eq_true, hslot] at hok
  rcases hok with hok | hok
  · exact h.loaded.accepted_inSlot h.layout (haccepted _ _ _ hok) ha
  obtain ⟨-, -, hlive, -⟩ := processCurrent_spec hcur
  obtain ⟨hbase, hsize⟩ := h.stack j i hlive hslot
  unfold processRangeInside at hok
  split at hok
  · cases hok
  · rw [rangeInside_eq, hbase, hsize] at hok
    exact .inr (fullRangeInside_spans hok ha)

theorem MemoryOwned.copiesConfined (h : MemoryOwned k) (howned : SlotsOwned k)
    (hcur : processCurrent k = some j) (hpid : (k.procs j).pid ≠ 0) :
    ∃ i, CopiesConfined k j i := by
  obtain ⟨-, -, hlive, -⟩ := processCurrent_spec hcur
  obtain ⟨i, hslot, hused⟩ := howned.slots.used j hlive
  have hgetpid : processGetpid k ≠ 0 := by
    unfold processGetpid
    rwa [hcur]
  refine ⟨i, hslot, hused, fun mem mem' src len hsame => ?_, fun mem dst data len a ha => ?_,
    fun l b hl hlj hlb a hb hi => ?_⟩
  · unfold copyFromUserChecked
    split
    · rfl
    split
    · rfl
    rename_i hok
    rw [Bool.not_eq_false, userReadRangeOk, if_pos hgetpid] at hok
    refine congrArg Except.ok (readBytes_congr fun n hn => ?_)
    exact hsame _ (h.rangeOk hcur hslot (fun _ _ _ => .inl) hok ⟨by omega, by omega⟩)
  · unfold copyToUserChecked
    split
    · rfl
    split
    · rfl
    rename_i hok
    rw [Bool.not_eq_false, userWriteRangeOk, if_pos hgetpid] at hok
    refine blit_outside ?_
    by_contra hin
    exact ha (h.rangeOk hcur hslot (fun _ _ _ => .inr) hok ⟨by omega, by omega⟩)
  · refine h.layout.disjoint b i ?_ a hb hi
    rintro rfl
    exact hlj (howned.slots.apart l j hl hlive (hlb.trans hslot.symm))

/-- Ranges accepted for a slot stay inside its own arrays; and after every run of the
system calls, the checked copies of a process reach its own image and stack only. -/
theorem user_memory_isolated : (∀ r, LoadedPool r → Apart r → RangesIsolated r) ∧
      ∀ (k0 k1 k : State) (prepared : CStr → Option UInt32) (f : FileRead) (calls : List Call),
        Unborn k0 → Apart k0.runtime → Bounded f.bytes →
        launchNativePid1 k0 prepared (some f) = some k1 → Run dispatch ImagesBounded k1 calls k →
        ∀ j, processCurrent k = some j → (k.procs j).pid ≠ 0 → ∃ i, CopiesConfined k j i := by
  refine ⟨fun r hloaded hr => hloaded.rangesIsolated hr,
    fun k0 k1 k prepared f calls hunborn hlayout hf hlaunch hrun j hcur hpid => ?_⟩
  obtain ⟨g, i, out, l, hg, -, hlaunched⟩ := launched_spec hlaunch
  cases hg
  have howned := Run.invariant (I := fun k => SlotsOwned k ∧ MemoryOwned k)
    (fun _ _ _ hI hok hstep => ⟨hI.1.step hok.boundOnce hstep, hI.2.step hI.1 hok hstep⟩) hrun
    ⟨hlaunched.slotsOwned hunborn, hlaunched.memoryOwned hunborn hlayout hf⟩
  exact howned.2.copiesConfined howned.1 hcur hpid

theorem booted_apart : Apart booted.runtime := by
  refine ⟨fun i => ?_, fun i l hne a hi hl => ?_⟩
  · refine ⟨?_, ?_, .inl ?_⟩ <;> dsimp only [booted] <;>
      simp only [aegisElfRuntimeImageMax, aegisUserStackSize] <;> omega
  · simp only [InSlot, InImage, InStack, Spans, booted, aegisElfRuntimeImageMax,
      aegisUserStackSize] at hi hl
    omega

theorem plainImage_bounded : Bounded plainImage := by decide +kernel

/-- The first process with the daemon beside it, and a pool with one image in it. -/
theorem daemon_memory_isolated :
    (∃ r i, (r.slots i).used = true ∧ LoadedPool r ∧ Apart r ∧ RangesIsolated r) ∧
      ∃ k1 k j i, launchNativePid1 initTaskRunning (fun _ => some 7) (some ⟨plainImage, 120⟩) = some k1 ∧
        Run dispatch ImagesBounded k1
          [.spawn (some (strcopy (cstr "/sbin/aegisd"))) (some ⟨plainImage, 120⟩) 0 0] k ∧
        processCurrent k = some j ∧ CopiesConfined k j i := by
  constructor
  · rcases elfLoaderLoadVfsPath_cases booted.runtime (some ⟨plainImage, 120⟩) (cstr "/sbin/aegisd") with
      ⟨r, rc, hload, -⟩ | ⟨f, i, out, hf, hload, hocc⟩
    · have hok : (elfLoaderLoadVfsPath booted.runtime (some ⟨plainImage, 120⟩)
          (cstr "/sbin/aegisd")).2.isOk = true := by decide +kernel
      rw [hload] at hok
      cases hok
    cases hf
    have hloaded : LoadedPool (booted.runtime.set i out.slot) := by
      intro b hb
      by_cases hbi : b = i
      · rw [hbi, set_self]
        exact hocc.loadedFrom plainImage_bounded
      · rw [set_of_ne _ _ hbi] at hb
        cases hb
    have hapart := booted_apart.set hocc.filled.imageBase hocc.filled.stackBase
    refine ⟨_, i, ?_, hloaded, hapart, user_memory_isolated.1 _ hloaded hapart⟩
    rw [set_self]
    exact hocc.used
  · have h : (launchNativePid1 initTaskRunning (fun _ => some 7) (some ⟨plainImage, 120⟩)).any (fun k1 =>
        (execute dispatch ImagesBounded k1
          [.spawn (some (strcopy (cstr "/sbin/aegisd"))) (some ⟨plainImage, 120⟩) 0 0]).any
          fun k => decide (∃ j, processCurrent k = some j ∧ (k.procs j).pid ≠ 0)) = true := by
      decide +kernel
    obtain ⟨k1, hlaunch, hexec⟩ := (Option.any_eq_true _ _).mp h
    obtain ⟨k, hrun, j, hj, hpid⟩ := Run.exists_of_execute hexec
    obtain ⟨i, hi⟩ := user_memory_isolated.2 initTaskRunning k1 k _ _ _ ⟨fun _ => rfl, rfl⟩
      booted_apart plainImage_bounded hlaunch hrun j hj hpid
    exact ⟨k1, k, j, i, hlaunch, hrun, hj, hi⟩

/-! `sys_read` and `sys_write` of a socket (`kernel/core/syscall.c`): loops that move chunks
of 128 bytes between user memory and the socket. -/
open Net Nat

def aegisSyscallIoChunk : UInt64 := 128

/-- The conversion `(int)fd`. -/
def intOf (fd : UInt64) : Int := fd.toUInt32.toBitVec.toInt

/-- The kernel and the memory of its user, with what happens on the wire meanwhile. -/
structure SocketIo where
  kernel : State
  mem : Store
  /-- The frames the device posts before each of the polls to come. -/
  frames : List (List RxElem)
  /-- The datagrams the polls have handed to each UDP socket, which the code does not note. -/
  arrived : Fin 64 → List Datagram

def SocketIo.net (io : SocketIo) : Stack := io.kernel.net

def SocketIo.withNet (io : SocketIo) (net : Stack) : SocketIo :=
  { io with kernel := { io.kernel with net := net } }

def posted (s : Stack) (rx : List RxElem) : Stack :=
  { s with driver := { s.driver with rx := s.driver.rx ++ rx } }

def SocketIo.post (io : SocketIo) : SocketIo :=
  let net := posted io.net (io.frames.headD [])
  { io.withNet net with
    frames := io.frames.tail
    arrived := fun t => io.arrived t ++ pollArrivals 32 net t }

/-- How a round of a loop ends: the call returns, or the loop goes on behind `done` bytes. -/
inductive Round
  | stop (ret : Int)
  | go (done : UInt64)

/-- The loop `while (done < len)`. -/
def socketLoop (round : SocketIo → UInt64 → SocketIo × Round) (len : UInt64) :
    Nat → SocketIo → UInt64 → Option (SocketIo × Int)
  | 0, _, _ => none
  | fuel + 1, io, done =>
    if done < len then
      match round io done with
      | (io, .stop ret) => some (io, ret)
      | (io, .go done) => socketLoop round len fuel io done
    else some (io, done.toNat)

section
variable {round : SocketIo → UInt64 → SocketIo × Round} {len done : UInt64} {io io' : SocketIo}

theorem socketLoop_stop (fuel : Nat) (hlt : done < len) {ret : Int}
    (h : round io done = (io', .stop ret)) :
    socketLoop round len (fuel + 1) io done = some (io', ret) := by
  rw [socketLoop, if_pos hlt, h]

theorem socketLoop_go (fuel : Nat) (hlt : done < len) {done' : UInt64}
    (h : round io done = (io', .go done')) :
    socketLoop round len (fuel + 1) io done = socketLoop round len fuel io' done' := by
  rw [socketLoop, if_pos hlt, h]

theorem socketLoop_end (fuel : Nat) (h : ¬done < len) :
    socketLoop round len (fuel + 1) io done = some (io, (done.toNat : Int)) := by
  rw [socketLoop, if_neg h]

end

def chunkOf (len done : UInt64) : UInt64 :=
  if len - done < aegisSyscallIoChunk then len - done else aegisSyscallIoChunk

def readRound (fd : Int) (buf len : UInt64) (io : SocketIo) (done : UInt64) : SocketIo × Round :=
  let chunk := chunkOf len done
  let io := io.post
  match netSocketRecv io.net (processGetpid io.kernel).toNat fd chunk.toNat with
  | (net, .error got) =>
    let io := io.withNet net
    if got = aegisEagain ∧ done ≠ 0 then (io, .stop done.toNat)
    else (io, .stop (if done ≠ 0 then done.toNat else got))
  | (net, .ok tmp) =>
    let io := io.withNet net
    if tmp.length = 0 then (io, .stop done.toNat)
    else
      let copied := copyToUserChecked io.kernel io.mem (buf + done) (ofList tmp) (.ofNat tmp.length)
      let io := { io with mem := copied.1 }
      if copied.2 ≠ aegisOk then (io, .stop copied.2)
      else
        let done := done + .ofNat tmp.length
        if tmp.length < chunk.toNat then (io, .stop done.toNat) else (io, .go done)

/-- The branch of `sys_read` for sockets; more rounds than bytes are never needed. -/
def sysReadSocket (io : SocketIo) (fd buf len : UInt64) : Option (SocketIo × Int) :=
  if buf = 0 ∨ len = 0 ∨ userWriteRangeOk io.kernel buf len = false then some (io, aegisEinval)
  else socketLoop (readRound (intOf fd) buf len) len (len.toNat + 1) io 0

def SocketIo.polled (io : SocketIo) : SocketIo := io.post.withNet (networkPoll io.post.net)

/-- `sys_recv` of a socket. -/
def sysRecv (io : SocketIo) (fd buf len : UInt64) : Option (SocketIo × Int) :=
  sysReadSocket io.polled fd buf len

def writeRound (fd : Int) (buf len : UInt64) (io : SocketIo) (done : UInt64) : SocketIo × Round :=
  let chunk := chunkOf len done
  match copyFromUserChecked io.kernel io.mem (buf + done) chunk with
  | .error rc => (io, .stop rc)
  | .ok tmp =>
    match netSocketSend io.net (processGetpid io.kernel).toNat fd tmp with
    | (net, sent) =>
      let io := io.withNet net
      if sent < 0 then (io, .stop (if done ≠ 0 then done.toNat else sent))
      else
        let done := done + .ofNat sent.toNat
        if sent.toNat < chunk.toNat then (io, .stop done.toNat) else (io, .go done)

/-- The branch of `sys_write` for sockets. -/
def sysWriteSocket (io : SocketIo) (fd buf len : UInt64) : Option (SocketIo × Int) :=
  if buf = 0 ∨ len = 0 ∨ userReadRangeOk io.kernel buf len = false then some (io, aegisEinval)
  else socketLoop (writeRound (intOf fd) buf len) len (len.toNat + 1) io 0

/-! Checks of ranges. -/

def RegionCheck (check : UInt64 → UInt64 → Bool) : Prop :=
  ∀ ptr len, check ptr len = true → ∃ base size, fullRangeInside ptr len base size = true ∧
    ∀ ptr' len', fullRangeInside ptr' len' base size = true → check ptr' len' = true

section
variable {check check' : UInt64 → UInt64 → Bool}

theorem regionCheck_never : RegionCheck fun _ _ => false := fun _ _ h => by cases h

theorem regionCheck_region (base size : Nat) :
    RegionCheck fun ptr len => fullRangeInside ptr len base size :=
  fun _ _ h => ⟨base, size, h, fun _ _ h' => h'⟩

theorem RegionCheck.or (h : RegionCheck check) (h' : RegionCheck check') :
    RegionCheck fun ptr len => check ptr len || check' ptr len := by
  intro ptr len hok
  rcases Bool.or_eq_true_iff.mp hok with hok | hok
  · obtain ⟨base, size, hin, hall⟩ := h ptr len hok
    exact ⟨base, size, hin, fun ptr' len' hin' =>
      Bool.or_eq_true_iff.mpr (.inl (hall ptr' len' hin'))⟩
  · obtain ⟨base, size, hin, hall⟩ := h' ptr len hok
    exact ⟨base, size, hin, fun ptr' len' hin' =>
      Bool.or_eq_true_iff.mpr (.inr (hall ptr' len' hin'))⟩

theorem regionCheck_rangeInside (base size : Nat) :
    RegionCheck fun ptr len => rangeInside ptr len base size := by
  simpa only [rangeInside_eq] using regionCheck_region base size

theorem regionCheck_slot (flag : Nat) (r : Runtime) (id : UInt32) : RegionCheck (slotRangeOk flag r id) := by
  unfold slotRangeOk
  cases runtimeSlotFromId r id with
  | none => exact regionCheck_never
  | some slot =>
    refine (regionCheck_region _ _).or fun ptr len hok => ?_
    obtain ⟨seg, hseg, hboth⟩ := List.any_eq_true.mp hok
    obtain ⟨hflag, hin⟩ := Bool.and_eq_true_iff.mp hboth
    refine ⟨seg.base, seg.size, hin, fun ptr' len' hin' => List.any_eq_true.mpr ⟨seg, hseg, ?_⟩⟩
    rw [hflag, hin', Bool.and_self]

theorem regionCheck_process {slotOk : Runtime → UInt32 → UInt64 → UInt64 → Bool}
    (hslot : ∀ r id, RegionCheck (slotOk r id)) (k : State) :
    RegionCheck (processCurrentUserRangeOk slotOk k) := by
  unfold processCurrentUserRangeOk
  cases processCurrent k with
  | none => exact regionCheck_never
  | some j =>
    refine (hslot _ _).or ?_
    unfold processRangeInside
    split
    · exact regionCheck_never
    · exact regionCheck_rangeInside _ _

theorem regionCheck_fixed : RegionCheck fixedRangeOk :=
  ((regionCheck_rangeInside _ _).or (regionCheck_rangeInside _ _)).or (regionCheck_rangeInside _ _)

theorem regionCheck_read (k : State) : RegionCheck (userReadRangeOk k) := by
  unfold userReadRangeOk
  split
  · exact regionCheck_process (regionCheck_slot _) k
  · exact ((regionCheck_rangeInside _ _).or regionCheck_fixed).or (regionCheck_slot _ _ _)

theorem regionCheck_write (k : State) : RegionCheck (userWriteRangeOk k) := by
  unfold userWriteRangeOk
  split
  · exact regionCheck_process (regionCheck_slot _) k
  · exact regionCheck_fixed.or (regionCheck_slot _ _ _)

theorem fullRangeInside_part {ptr len ptr' len' : UInt64} {base size : Nat}
    (h : fullRangeInside ptr len base size = true) (hpos : len' ≠ 0) (hfrom : ptr.toNat ≤ ptr'.toNat)
    (hto : ptr'.toNat + len'.toNat ≤ ptr.toNat + len.toNat) :
    fullRangeInside ptr' len' base size = true := by
  unfold fullRangeInside at h ⊢
  dsimp only at h ⊢
  split at h
  · cases h
  rename_i hnonzero
  split at h
  · cases h
  rename_i hwrap
  rw [not_or, not_or] at hnonzero
  rw [not_or, UInt64.not_le, UInt64.lt_iff_toNat_lt, UInt64.toNat_add] at hwrap
  rw [decide_eq_true_iff, UInt64.toNat_add] at h
  have hptr : ptr.toNat ≠ 0 := fun h0 => hnonzero.1 (UInt64.toNat_inj.mp h0)
  have hlen : len'.toNat ≠ 0 := fun h0 => hpos (UInt64.toNat_inj.mp h0)
  have hptr' : ptr' ≠ 0 := fun h0 => by
    rw [h0] at hfrom
    exact hptr (le_zero.mp hfrom)
  have hl := len.toNat_lt
  rw [if_neg (by rw [not_or, not_or]; exact ⟨hptr', hpos, hnonzero.2.2⟩),
    if_neg (by rw [not_or, UInt64.not_le, UInt64.lt_iff_toNat_lt, UInt64.toNat_add]; omega),
    decide_eq_true_iff, UInt64.toNat_add]
  omega

theorem RegionCheck.accepted (h : RegionCheck check) {ptr len : UInt64} (hok : check ptr len = true) :
    ptr ≠ 0 ∧ len ≠ 0 ∧ ptr.toNat + len.toNat < 2 ^ 64 := by
  obtain ⟨base, size, hin, -⟩ := h ptr len hok
  unfold fullRangeInside at hin
  dsimp only at hin
  split at hin
  · cases hin
  rename_i hnonzero
  split at hin
  · cases hin
  rename_i hwrap
  rw [not_or, not_or] at hnonzero
  rw [not_or, UInt64.not_le, UInt64.lt_iff_toNat_lt, UInt64.toNat_add] at hwrap
  have hl := len.toNat_lt
  exact ⟨hnonzero.1, hnonzero.2.1, by omega⟩

theorem RegionCheck.chunk (h : RegionCheck check) {buf len : UInt64} (hok : check buf len = true)
    (done : Nat) {n : Nat} (hpos : n ≠ 0) (hle : done + n ≤ len.toNat) :
    check (buf + .ofNat done) (.ofNat n) = true ∧ (buf + .ofNat done).toNat = buf.toNat + done ∧
      (UInt64.ofNat n).toNat = n ∧ UInt64.ofNat n ≠ 0 := by
  obtain ⟨-, -, hwrap⟩ := h.accepted hok
  obtain ⟨base, size, hin, hall⟩ := h buf len hok
  have hstart : (buf + .ofNat done).toNat = buf.toNat + done := by
    rw [UInt64.toNat_add, UInt64.toNat_ofNat', add_mod_mod, mod_eq_of_lt (by omega)]
  have hlen : (UInt64.ofNat n).toNat = n := by rw [UInt64.toNat_ofNat', mod_eq_of_lt (by omega)]
  have hne : UInt64.ofNat n ≠ 0 := fun h0 => hpos (by rw [← hlen, h0]; rfl)
  exact ⟨hall _ _ (fullRangeInside_part hin hne (by omega) (by omega)), hstart, hlen, hne⟩

end

section
variable {k : State} {buf len : UInt64}

theorem copyToUserChecked_chunk (hok : userWriteRangeOk k buf len = true) (done : Nat) {n : Nat}
    (hpos : n ≠ 0) (hle : done + n ≤ len.toNat) (mem data : Store) :
    copyToUserChecked k mem (buf + .ofNat done) data (.ofNat n) =
      (blit mem (buf.toNat + done) n data, aegisOk) := by
  obtain ⟨hpart, hstart, hlen, hne⟩ := (regionCheck_write k).chunk hok done hpos hle
  unfold copyToUserChecked
  rw [if_neg hne, hpart, if_neg (by decide), hstart, hlen]

theorem copyFromUserChecked_chunk (hok : userReadRangeOk k buf len = true) (done : Nat) {n : Nat}
    (hpos : n ≠ 0) (hle : done + n ≤ len.toNat) (mem : Store) :
    copyFromUserChecked k mem (buf + .ofNat done) (.ofNat n) =
      .ok (readBytes mem (buf.toNat + done) n) := by
  obtain ⟨hpart, hstart, hlen, hne⟩ := (regionCheck_read k).chunk hok done hpos hle
  unfold copyFromUserChecked
  rw [if_neg hne, hpart, if_neg (by decide), hstart, hlen]

end

end AegisOS.Kernel
