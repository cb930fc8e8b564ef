import AegisOS.UserMemory

/-! Reads of a datagram socket: each round of `sys_read` polls and takes one datagram, so that
a call delivers one of them when one round is enough. -/
namespace AegisOS.Kernel
open ByteStore Net ElfLoader SocketIo List Nat CString

/-! The kernel around the stack. -/

section
variable (k : State) (s : Stack)

theorem processCurrent_net : processCurrent { k with net := s } = processCurrent k := by
  unfold processCurrent
  rfl

theorem processGetpid_net : processGetpid { k with net := s } = processGetpid k := by
  unfold processGetpid
  rw [processCurrent_net]

theorem userWriteRangeOk_net : userWriteRangeOk { k with net := s } = userWriteRangeOk k := by
  unfold userWriteRangeOk processCurrentUserWriteRangeOk processCurrentUserRangeOk
  rw [processGetpid_net, processCurrent_net]

theorem userReadRangeOk_net : userReadRangeOk { k with net := s } = userReadRangeOk k := by
  unfold userReadRangeOk processCurrentUserReadRangeOk processCurrentUserRangeOk
  rw [processGetpid_net, processCurrent_net]

end

def SocketIo.pid (io : SocketIo) : Nat := (processGetpid io.kernel).toNat

theorem pid_withNet (io : SocketIo) (s : Stack) : (io.withNet s).pid = io.pid :=
  congrArg UInt32.toNat (processGetpid_net io.kernel s)

/-! Rounds. -/

theorem chunkOf_spec {len done : UInt64} (h : done < len) :
    (chunkOf len done).toNat = min (len.toNat - done.toNat) 128 ∧ (chunkOf len done).toNat ≠ 0 := by
  have hsub : (len - done).toNat = len.toNat - done.toNat :=
    UInt64.toNat_sub_of_le _ _ (UInt64.le_of_lt h)
  have hlt : done.toNat < len.toNat := UInt64.lt_iff_toNat_lt.mp h
  have hchunk : aegisSyscallIoChunk.toNat = 128 := rfl
  unfold chunkOf
  split
  next hsmall =>
    have hsmall' := UInt64.lt_iff_toNat_lt.mp hsmall
    omega
  next hlarge =>
    have hlarge' : ¬(len - done).toNat < aegisSyscallIoChunk.toNat :=
      fun h' => hlarge (UInt64.lt_iff_toNat_lt.mpr h')
    omega

/-- A read of a datagram socket into a buffer of the process. -/
structure Reading (io : SocketIo) (fd : Int) (buf len : UInt64) (n t : Fin 64) : Prop where
  socket : DgramSocket io.net io.pid fd n t
  buffer : userWriteRangeOk io.kernel buf len = true

/-- The state behind a round that took `d`. -/
def SocketIo.took (io : SocketIo) (n t : Fin 64) (d : Datagram) (mem : Store) : SocketIo :=
  { io.post.withNet ((networkPoll io.post.net).taken n t d) with mem := mem }

def SocketIo.arrivals (t : Fin 64) : Nat → SocketIo → List Datagram
  | 0, _ => []
  | m + 1, io => pollArrivals 32 io.post.net t ++ arrivals t m io.polled

section
variable {io : SocketIo} {fd : Int} {buf len : UInt64} {n t : Fin 64}

section
variable (h : Reading io fd buf len n t)
include h

theorem Reading.withNet {s : Stack} (hs : DgramSocket s io.pid fd n t) (io' : SocketIo)
    (hkernel : io'.kernel = { io.kernel with net := s }) : Reading io' fd buf len n t := by
  refine ⟨?_, ?_⟩
  · have hpid : io'.pid = io.pid := by
      unfold pid
      rw [hkernel, processGetpid_net]
    have hnet : io'.net = s := congrArg State.net hkernel
    rw [hpid, hnet]
    exact hs
  · rw [hkernel, userWriteRangeOk_net]
    exact h.buffer

theorem Reading.post : Reading io.post fd buf len n t := by
  have hs : DgramSocket (posted io.net (io.frames.headD [])) io.pid fd n t := h.socket.congr rfl
  exact h.withNet hs _ rfl

theorem Reading.polled : Reading io.polled fd buf len n t :=
  h.post.withNet (h.post.socket.congr (networkPoll_spec _).1) _ rfl

theorem Reading.took (d : Datagram) (mem : Store) : Reading (io.took n t d mem) fd buf len n t :=
  h.post.withNet ((h.post.socket.congr (networkPoll_spec _).1).taken d) _ rfl

end

theorem pending_polled (io : SocketIo) (t : Fin 64) :
    (io.polled.net.udp t).pending = latest ((io.net.udp t).pending ++ pollArrivals 32 io.post.net t) :=
  (networkPoll_spec io.post.net).2.2 t

def front (d : Datagram) (len done : UInt64) : List UInt8 := d.bytes.take (chunkOf len done).toNat

section
variable (h : Reading io fd buf len n t) {done : UInt64} (hlt : done < len)
include h hlt

theorem readRound_cases :
    ((io.polled.net.udp t).pending = [] ∧ readRound fd buf len io done =
      (io.polled, .stop (if done ≠ 0 then done.toNat else aegisEagain))) ∨
    ∃ d, (io.polled.net.udp t).pending = [d] ∧ readRound fd buf len io done =
      (io.took n t d (blit io.mem (buf.toNat + done.toNat) (front d len done).length
          (ofList (front d len done))),
        if (front d len done).length < (chunkOf len done).toNat then
          .stop (done + .ofNat (front d len done).length).toNat
        else .go (done + .ofNat (front d len done).length)) := by
  obtain ⟨hchunk, hpos⟩ := chunkOf_spec hlt
  rw [pending_polled]
  unfold readRound
  dsimp only
  rcases netSocketRecv_spec h.post.socket hpos with ⟨hnone, heq⟩ | ⟨d, hsome, heq⟩
  · left
    refine ⟨hnone, ?_⟩
    unfold pid at heq
    rw [heq]
    dsimp only
    by_cases hzero : done ≠ 0
    · rw [if_pos ⟨rfl, hzero⟩, if_pos hzero]
      rfl
    · rw [if_neg fun h' => hzero h'.2, if_neg hzero]
      rfl
  · right
    refine ⟨d, hsome, ?_⟩
    have hfront : d.bytes.take (min (chunkOf len done).toNat 65535) = front d len done := by
      unfold front
      rw [min_eq_left (by omega)]
    unfold pid at heq
    rw [heq]
    dsimp only
    rw [hfront]
    have hlength : (front d len done).length ≤ (chunkOf len done).toNat := length_take_le _ _
    by_cases hempty : (front d len done).length = 0
    · rw [if_pos hempty, hempty, if_pos (by omega)]
      refine Prod.ext ?_ ?_
      · have hmem : blit io.mem (buf.toNat + done.toNat) 0 (ofList (front d len done)) = io.mem :=
          funext fun a => blit_outside (by omega)
        rw [hmem]
        rfl
      · simp
    · have hbuffer : userWriteRangeOk
          (io.post.withNet ((networkPoll io.post.net).taken n t d)).kernel buf len = true :=
        (h.took d io.mem).buffer
      have hcopy := copyToUserChecked_chunk hbuffer done.toNat hempty (by omega) io.mem
        (ofList (front d len done))
      rw [UInt64.ofNat_toNat] at hcopy
      have hmem : (io.post.withNet ((networkPoll io.post.net).taken n t d)).mem = io.mem := rfl
      rw [if_neg hempty, hmem, hcopy]
      dsimp only
      rw [if_neg (by decide)]
      split <;> rfl

structure RoundKept (io : SocketIo) (fd : Int) (buf len : UInt64) (n t : Fin 64) (done : UInt64)
    (out : SocketIo × Round) : Prop where
  reading : Reading out.1 fd buf len n t
  empty : (out.1.net.udp t).pending = []
  arrived : out.1.arrived t = io.arrived t ++ pollArrivals 32 io.post.net t
  more : ∀ done', out.2 = .go done' → done.toNat < done'.toNat ∧ done'.toNat ≤ len.toNat

theorem readRound_kept : RoundKept io fd buf len n t done (readRound fd buf len io done) := by
  obtain ⟨hchunk, hpos⟩ := chunkOf_spec hlt
  rcases readRound_cases h hlt with ⟨hnone, heq⟩ | ⟨d, -, heq⟩ <;> rw [heq]
  · exact ⟨h.polled, hnone, rfl, fun _ hgo => by cases hgo⟩
  refine ⟨h.took d _, pending_taken _ n t d, rfl, fun done' hgo => ?_⟩
  split at hgo
  · cases hgo
  have hlength : (front d len done).length ≤ (chunkOf len done).toNat := length_take_le _ _
  cases hgo
  have hlen := len.toNat_lt
  rw [UInt64.toNat_add, UInt64.toNat_ofNat']
  omega

end

theorem readLoop_kept (fuel : Nat) (done : UInt64) (h : Reading io fd buf len n t)
    (hempty : ¬done < len → (io.net.udp t).pending = []) (hdone : done.toNat ≤ len.toNat)
    (hfuel : len.toNat < fuel + done.toNat) :
    ∃ io' ret, socketLoop (readRound fd buf len) len fuel io done = some (io', ret) ∧
      (io'.net.udp t).pending = [] ∧
      io.arrived t ++ (if done < len then pollArrivals 32 io.post.net t else []) <+: io'.arrived t := by
  induction fuel generalizing io done with
  | zero => omega
  | succ fuel ih =>
    by_cases hlt : done < len
    · have hkept := readRound_kept h hlt
      rw [if_pos hlt]
      rcases hround : readRound fd buf len io done with ⟨io₁, ret | done₁⟩ <;> rw [hround] at hkept
      · exact ⟨io₁, ret, socketLoop_stop fuel hlt hround, hkept.empty,
          hkept.arrived ▸ prefix_refl _⟩
      obtain ⟨hgrow, hle⟩ := hkept.more done₁ rfl
      obtain ⟨io', ret, hloop, hpending, hleading⟩ :=
        ih done₁ hkept.reading (fun _ => hkept.empty) hle (by omega)
      refine ⟨io', ret, (socketLoop_go fuel hlt hround).trans hloop, hpending, ?_⟩
      rw [← hkept.arrived]
      exact (prefix_append _ _).trans hleading
    · rw [if_neg hlt, append_nil]
      exact ⟨io, done.toNat, socketLoop_end fuel hlt, hempty hlt, prefix_refl _⟩

theorem pollArrivals_took (io : SocketIo) (n t : Fin 64) (d : Datagram) (mem : Store) :
    pollArrivals 32 (io.took n t d mem).post.net t = pollArrivals 32 io.polled.post.net t := by
  have hsame : SamePorts io.polled.post.net.udp ((networkPoll io.post.net).taken n t d).udp :=
    samePorts_taken (networkPoll io.post.net) n t d
  obtain ⟨_, _, _, harrive⟩ := networkPoll_put hsame ((networkPoll io.post.net).taken n t d).sockets
  exact (harrive t).1

theorem arrived_took (io : SocketIo) (n t : Fin 64) (d : Datagram) (mem : Store) :
    (io.took n t d mem).arrived t = io.arrived t ++ pollArrivals 32 io.post.net t := rfl

/-! One read. -/

/-- A read while the datagram `d` is pending. -/
structure ReadCall (io : SocketIo) (fd buf len : UInt64) (n t : Fin 64) (d : Datagram) : Prop where
  socket : DgramSocket io.net io.pid (intOf fd) n t
  pending : (io.net.udp t).pending = [d]
  buffer : len ≠ 0 → userWriteRangeOk io.kernel buf len = true
  start : io.arrived t = []

/-- The call delivers the front of one of the datagrams that were there or came, and takes
that one away. -/
def ReceivesOne (call : SocketIo → UInt64 → UInt64 → UInt64 → Option (SocketIo × Int))
    (io : SocketIo) (fd buf len : UInt64) (t : Fin 64) : Prop :=
  ∃ io' ret before d after, call io fd buf len = some (io', ret) ∧
    (io.net.udp t).pending ++ io'.arrived t = before ++ d :: after ∧
    (io'.net.udp t).pending = before ++ after ∧
    ret = (min len.toNat d.bytes.length : Nat) ∧
    readBytes io'.mem buf.toNat (min len.toNat d.bytes.length) = d.bytes.take len.toNat

end

section
variable {io : SocketIo} {fd buf len : UInt64} {n t : Fin 64} {d : Datagram}

theorem Reading.loop (h : Reading io (intOf fd) buf len n t) (hlen : len ≠ 0) :
    sysReadSocket io fd buf len =
      socketLoop (readRound (intOf fd) buf len) len (len.toNat + 1) io 0 := by
  obtain ⟨hbuf, -, -⟩ := (regionCheck_write io.kernel).accepted h.buffer
  unfold sysReadSocket
  rw [if_neg (by simp [hbuf, hlen, h.buffer])]

/-- A read leaves nothing pending, and has seen what came in its first poll. -/
theorem Reading.kept (h : Reading io (intOf fd) buf len n t) (hlen : len ≠ 0) {io' : SocketIo}
    {ret : Int} (hcall : sysReadSocket io fd buf len = some (io', ret)) :
    (io'.net.udp t).pending = [] ∧
      io.arrived t ++ pollArrivals 32 io.post.net t <+: io'.arrived t := by
  have hlt : (0 : UInt64) < len := UInt64.pos_iff_ne_zero.mpr hlen
  have hkept := readLoop_kept (len.toNat + 1) 0 h (fun hn => absurd hlt hn) (Nat.zero_le _)
    (Nat.lt_succ_self _)
  rw [← h.loop hlen, hcall, if_pos hlt] at hkept
  obtain ⟨_, _, heq, hkept⟩ := hkept
  cases heq
  exact hkept

theorem length_of_read {io' : SocketIo} {ret : Int}
    (hcall : sysReadSocket io fd buf len = some (io', ret)) (hret : 0 ≤ ret) : len ≠ 0 := by
  rintro rfl
  unfold sysReadSocket at hcall
  rw [if_pos (.inr (.inl rfl))] at hcall
  obtain ⟨-, rfl⟩ := Prod.mk.inj (Option.some.inj hcall)
  exact absurd hret (by decide)

section
variable (h : ReadCall io fd buf len n t d) (hlen : len ≠ 0)
include h hlen

theorem ReadCall.reading : Reading io (intOf fd) buf len n t := ⟨h.socket, h.buffer hlen⟩

theorem ReadCall.first : ∃ d₁ mem, latest (d :: pollArrivals 32 io.post.net t) = [d₁] ∧
      readBytes mem buf.toNat (min (min len.toNat 128) d₁.bytes.length) =
        d₁.bytes.take (min len.toNat 128) ∧
      ((d₁.bytes.length < min len.toNat 128 ∧
        sysReadSocket io fd buf len = some (io.took n t d₁ mem, (d₁.bytes.length : Int))) ∨
      (min len.toNat 128 ≤ d₁.bytes.length ∧ sysReadSocket io fd buf len =
        socketLoop (readRound (intOf fd) buf len) len len.toNat (io.took n t d₁ mem)
          (.ofNat (min len.toNat 128)))) := by
  have hlt : (0 : UInt64) < len := UInt64.pos_iff_ne_zero.mpr hlen
  have hchunk : (chunkOf len 0).toNat = min len.toNat 128 := (chunkOf_spec hlt).1
  have hpolled : (io.polled.net.udp t).pending = latest (d :: pollArrivals 32 io.post.net t) := by
    rw [pending_polled, h.pending]
    rfl
  rcases readRound_cases (h.reading hlen) hlt with ⟨hnone, -⟩ | ⟨d₁, hsome, heq⟩
  · rw [hpolled] at hnone
    simp [latest] at hnone
  have hfront : front d₁ len 0 = d₁.bytes.take (min len.toNat 128) := by
    unfold front
    rw [hchunk]
  have hlength : (front d₁ len 0).length = min (min len.toNat 128) d₁.bytes.length := by
    rw [hfront, length_take]
  refine ⟨d₁, blit io.mem buf.toNat (front d₁ len 0).length (ofList (front d₁ len 0)),
    hpolled.symm.trans hsome, ?_, ?_⟩
  · rw [← hlength, readBytes_blit_same, readBytes_ofList, hfront]
  rw [(h.reading hlen).loop hlen]
  by_cases hshort : d₁.bytes.length < min len.toNat 128
  · rw [if_pos (by omega), UInt64.zero_add, UInt64.toNat_ofNat', mod_eq_of_lt (by omega)] at heq
    have hall : (front d₁ len 0).length = d₁.bytes.length := by omega
    refine .inl ⟨hshort, (socketLoop_stop _ hlt heq).trans ?_⟩
    rw [hall]
    rfl
  · rw [if_neg (by omega), UInt64.zero_add] at heq
    have hall : (front d₁ len 0).length = min len.toNat 128 := by omega
    refine .inr ⟨by omega, (socketLoop_go _ hlt heq).trans ?_⟩
    rw [hall]
    rfl

end

theorem latest_cons_eq {d d₁ : Datagram} {l : List Datagram} (hl : l = []) (h : latest (d :: l) = [d₁]) :
    d₁ = d := by
  subst hl
  exact (singleton_inj.mp h).symm

/-- What a read needs: nothing else comes in its first poll, and one round is enough; a
datagram that fills the chunk of a longer buffer takes a second poll to see its end. -/
def OneRound (io : SocketIo) (len : UInt64) (t : Fin 64) (d : Datagram) : Prop :=
  len ≠ 0 ∧ arrivals t 1 io = [] ∧
    (len.toNat ≤ 128 ∨ d.bytes.length < 128 ∨ d.bytes.length = 128 ∧ arrivals t 2 io = [])

theorem arrivals_one (io : SocketIo) (t : Fin 64) :
    arrivals t 1 io = pollArrivals 32 io.post.net t := append_nil _

theorem arrivals_two (io : SocketIo) (t : Fin 64) :
    arrivals t 2 io = pollArrivals 32 io.post.net t ++ pollArrivals 32 io.polled.post.net t := by
  simp only [arrivals, append_nil]

variable (h : ReadCall io fd buf len n t d)
include h

theorem ReadCall.second (hlen : 128 < len.toNat) (d₁ : Datagram) (mem : Store)
    (hnone : pollArrivals 32 io.polled.post.net t = []) :
    socketLoop (readRound (intOf fd) buf len) len len.toNat (io.took n t d₁ mem) 128 =
        some ((io.took n t d₁ mem).polled, 128) ∧
      ((io.took n t d₁ mem).polled.net.udp t).pending = [] := by
  have hlt : (128 : UInt64) < len := UInt64.lt_iff_toNat_lt.mpr hlen
  have hne : len ≠ 0 := fun h0 => by simp [h0] at hlen
  have hempty : ((io.took n t d₁ mem).polled.net.udp t).pending = [] := by
    rw [pending_polled, pollArrivals_took, hnone]
    have htaken : ((io.took n t d₁ mem).net.udp t).pending = [] := pending_taken _ n t d₁
    rw [htaken]
    rfl
  rcases readRound_cases ((h.reading hne).took d₁ mem) hlt with ⟨-, heq⟩ | ⟨d₂, hsome, -⟩
  · obtain ⟨fuel, hfuel⟩ := exists_eq_succ_of_ne_zero (n := len.toNat) (by omega)
    rw [hfuel]
    exact ⟨socketLoop_stop fuel hlt heq, hempty⟩
  · rw [hempty] at hsome
    cases hsome

theorem ReadCall.alone {io' : SocketIo} {before after : List Datagram} {d' : Datagram}
    (hlist : (io.net.udp t).pending ++ io'.arrived t = before ++ d' :: after)
    (hleft : (io'.net.udp t).pending = before ++ after) (hempty : (io'.net.udp t).pending = []) :
    d' = d ∧ io'.arrived t = [] := by
  obtain ⟨rfl, rfl⟩ := append_eq_nil_iff.mp (hleft.symm.trans hempty)
  rw [h.pending] at hlist
  obtain ⟨hd, harrived⟩ := cons_eq_cons.mp hlist
  exact ⟨hd.symm, harrived⟩

theorem ReadCall.oneRound (hone : ReceivesOne sysReadSocket io fd buf len t) :
    OneRound io len t d := by
  obtain ⟨io', ret, before, d', after, hcall, hlist, hleft, hret, -⟩ := hone
  have hlen := length_of_read hcall (hret ▸ Int.natCast_nonneg _)
  obtain ⟨hempty, hleading⟩ := (h.reading hlen).kept hlen hcall
  obtain ⟨rfl, harrived⟩ := h.alone hlist hleft hempty
  rw [harrived, h.start, nil_append] at hleading
  have hfirst : pollArrivals 32 io.post.net t = [] := prefix_nil.mp hleading
  refine ⟨hlen, (arrivals_one io t).trans hfirst, ?_⟩
  by_cases hsmall : len.toNat ≤ 128
  · exact .inl hsmall
  by_cases hshort : d'.bytes.length < 128
  · exact .inr (.inl hshort)
  have hmin : min len.toNat 128 = 128 := by omega
  obtain ⟨d₁, mem, hd, -, hnext⟩ := h.first hlen
  obtain rfl := latest_cons_eq hfirst hd
  rw [hmin] at hnext
  obtain ⟨-, hloop⟩ := hnext.resolve_left fun h' => hshort h'.1
  have hlt' : (128 : UInt64) < len := UInt64.lt_iff_toNat_lt.mpr (by simpa using hsmall)
  have hkept₂ := readLoop_kept len.toNat 128 ((h.reading hlen).took d₁ mem)
    (fun hn => absurd hlt' hn) (Nat.le_of_not_le hsmall) (by simp)
  rw [if_pos hlt', pollArrivals_took, arrived_took, h.start, hfirst, nil_append] at hkept₂
  obtain ⟨io₂, ret₂, heq₂, -, hleading₂⟩ := hkept₂
  obtain ⟨rfl, rfl⟩ := Prod.mk.inj (Option.some.inj ((hcall.symm.trans hloop).trans heq₂))
  rw [harrived, nil_append] at hleading₂
  have hsecond := prefix_nil.mp hleading₂
  have hend := (hcall.symm.trans hloop).trans (h.second (by omega) d₁ mem hsecond).1
  obtain ⟨-, hret'⟩ := Prod.mk.inj (Option.some.inj hend)
  refine .inr (.inr ⟨?_, ?_⟩)
  · omega
  · rw [arrivals_two, hfirst, hsecond]
    rfl

theorem OneRound.receivesOne (hone : OneRound io len t d) :
    ReceivesOne sysReadSocket io fd buf len t := by
  obtain ⟨hlen, hfirst, hround⟩ := hone
  rw [arrivals_one] at hfirst
  have hpos : len.toNat ≠ 0 := fun h0 => hlen (UInt64.toNat_inj.mp h0)
  obtain ⟨d₁, mem, hd, hmem, hnext⟩ := h.first hlen
  obtain rfl := latest_cons_eq hfirst hd
  have hlist : ∀ io' : SocketIo, io'.arrived t = [] →
      (io.net.udp t).pending ++ io'.arrived t = [] ++ d₁ :: [] := by
    intro io' h'
    rw [h.pending, h']
    rfl
  have htook : (io.took n t d₁ mem).arrived t = [] := by
    rw [arrived_took, h.start, hfirst]
    rfl
  -- one chunk holds all that the call may deliver
  have hmin : min (min len.toNat 128) d₁.bytes.length = min len.toNat d₁.bytes.length := by omega
  have htake : d₁.bytes.take (min len.toNat 128) = d₁.bytes.take len.toNat := by
    rcases lt_or_ge 128 len.toNat with hlarge | hsmall
    rotate_left
    · rw [min_eq_left hsmall]
    · rw [take_of_length_le (by omega), take_of_length_le (by omega)]
  rw [hmin, htake] at hmem
  rcases hnext with ⟨hshort, hcall⟩ | ⟨hfull, hcall⟩
  · refine ⟨_, _, [], d₁, [], hcall, hlist _ htook, pending_taken _ n t d₁, ?_, hmem⟩
    rw [min_eq_right (by omega)]
  by_cases hsmall : len.toNat ≤ 128
  · rw [min_eq_left hsmall, UInt64.ofNat_toNat] at hcall
    obtain ⟨fuel, hfuel⟩ := exists_eq_succ_of_ne_zero hpos
    rw [hfuel, socketLoop_end fuel (UInt64.lt_irrefl len)] at hcall
    refine ⟨_, _, [], d₁, [], hcall, hlist _ htook, pending_taken _ n t d₁, ?_, hmem⟩
    rw [min_eq_left (by omega)]
  rw [min_eq_right (by omega)] at hcall hfull
  obtain ⟨hsize, hsecond⟩ := (hround.resolve_left hsmall).resolve_left (by omega)
  rw [arrivals_two, hfirst, nil_append] at hsecond
  have hpolled : (io.took n t d₁ mem).polled.arrived t = [] := by
    have hnoted : (io.took n t d₁ mem).polled.arrived t = (io.took n t d₁ mem).arrived t ++
        pollArrivals 32 (io.took n t d₁ mem).post.net t := rfl
    rw [hnoted, htook, pollArrivals_took, hsecond]
    rfl
  obtain ⟨hend, hleft⟩ := h.second (by omega) d₁ mem hsecond
  refine ⟨_, _, [], d₁, [], hcall.trans hend, hlist _ hpolled, hleft, ?_, hmem⟩
  rw [min_eq_right (by omega), hsize]
  rfl

theorem receivesOne_iff : ReceivesOne sysReadSocket io fd buf len t ↔ OneRound io len t d :=
  ⟨h.oneRound, fun hone => hone.receivesOne h⟩

/-! `sys_recv` polls once more, before the read. -/

theorem ReadCall.polled (hlen : len ≠ 0) (hnone : pollArrivals 32 io.post.net t = []) :
    ReadCall io.polled fd buf len n t d := by
  have hreading := (h.reading hlen).polled
  refine ⟨hreading.socket, ?_, fun _ => hreading.buffer, ?_⟩
  · rw [pending_polled, h.pending, hnone]
    rfl
  · show io.arrived t ++ pollArrivals 32 io.post.net t = []
    rw [h.start, hnone]
    rfl

theorem recv_iff (hlen : len ≠ 0) (hnone : pollArrivals 32 io.post.net t = []) :
    ReceivesOne sysRecv io fd buf len t ↔ OneRound io.polled len t d := by
  have hpolled := h.polled hlen hnone
  rw [← receivesOne_iff hpolled]
  unfold ReceivesOne sysRecv
  rw [h.pending, hpolled.pending]

theorem recvOne_iff : ReceivesOne sysRecv io fd buf len t ↔
    arrivals t 1 io = [] ∧ OneRound io.polled len t d := by
  rw [arrivals_one]
  refine ⟨fun hone => ?_, fun hone => (recv_iff h hone.2.1 hone.1).mpr hone.2⟩
  obtain ⟨io', ret, before, d', after, hcall, hlist, hleft, hret, -⟩ := id hone
  have hlen := length_of_read hcall (hret ▸ Int.natCast_nonneg _)
  obtain ⟨hempty, hleading⟩ := (h.reading hlen).polled.kept hlen hcall
  have harrived := (h.alone hlist hleft hempty).2
  rw [harrived] at hleading
  -- what came in the first poll is still among the arrivals
  have hnone : io.arrived t ++ pollArrivals 32 io.post.net t = [] :=
    (append_eq_nil_iff.mp (prefix_nil.mp hleading)).1
  rw [h.start] at hnone
  exact ⟨hnone, (recv_iff h hlen hnone).mp hone⟩

end

/-! Datagrams through the system calls. A read takes one datagram a round and a write sends
one a round, so that the boundaries survive when one round is enough. -/

/-! One write. -/

structure WriteCall (io : SocketIo) (fd buf len : UInt64) (n : Fin 64) : Prop where
  socket : Sendable io.net io.pid (intOf fd) n
  buffer : len ≠ 0 → userReadRangeOk io.kernel buf len = true
  limit : len.toNat ≤ 1492

/-- The call puts one frame on the wire, with a datagram of the bytes given. -/
def SendsOne (io : SocketIo) (fd buf len : UInt64) (n : Fin 64) : Prop :=
  ∃ io' ret mac ipSum udpSum, sysWriteSocket io fd buf len = some (io', ret) ∧
    io'.net.driver.sent = datagramFrame io.net (io.net.sockets n) mac ipSum udpSum
      (readBytes io.mem buf.toNat len.toNat) :: io.net.driver.sent

section
variable {io : SocketIo} {fd : Int} {buf len : UInt64} {n : Fin 64}

structure WriteKept (io : SocketIo) (fd : Int) (n : Fin 64) (io' : SocketIo) : Prop where
  held : socketLookup io'.net io'.pid fd = some n
  dgram : (io'.net.sockets n).type = .dgram
  sent : io.net.driver.sent <:+ io'.net.driver.sent

theorem WriteKept.trans {io₁ io₂ : SocketIo} (h : WriteKept io fd n io₁) (h' : WriteKept io₁ fd n io₂) :
    WriteKept io fd n io₂ := ⟨h'.held, h'.dgram, h.sent.trans h'.sent⟩

theorem writeRound_kept (h : WriteKept io fd n io) (done : UInt64) :
    WriteKept io fd n (writeRound fd buf len io done).1 := by
  unfold writeRound
  dsimp only
  cases copyFromUserChecked io.kernel io.mem (buf + done) (chunkOf len done) with
  | error rc => exact h
  | ok tmp =>
    dsimp only
    obtain ⟨hsent, hsockets⟩ := netSocketSend_dgram h.held h.dgram tmp
    have hkept : WriteKept io fd n (io.withNet (netSocketSend io.net io.pid fd tmp).1) := by
      refine ⟨?_, ?_, hsent⟩
      · rw [pid_withNet]
        exact (socketLookup_congr hsockets _ _).trans h.held
      have hn : (io.withNet (netSocketSend io.net io.pid fd tmp).1).net.sockets = io.net.sockets :=
        hsockets
      rw [hn]
      exact h.dgram
    split
    · exact hkept
    · split <;> exact hkept

theorem writeLoop_kept (fuel : Nat) (done : UInt64) (h : WriteKept io fd n io) {io' : SocketIo} {ret : Int}
    (hloop : socketLoop (writeRound fd buf len) len fuel io done = some (io', ret)) :
    WriteKept io fd n io' := by
  induction fuel generalizing io done with
  | zero => cases hloop
  | succ fuel ih =>
    by_cases hlt : done < len
    · have hkept : WriteKept io fd n (writeRound fd buf len io done).1 := writeRound_kept h done
      rcases hround : writeRound fd buf len io done with ⟨io₁, ret₁ | done₁⟩
      · rw [socketLoop_stop fuel hlt hround] at hloop
        rw [hround] at hkept
        cases hloop
        exact hkept
      · rw [socketLoop_go fuel hlt hround] at hloop
        rw [hround] at hkept
        exact hkept.trans (ih done₁ ⟨hkept.held, hkept.dgram, suffix_refl _⟩ hloop)
    · rw [socketLoop_end fuel hlt] at hloop
      cases hloop
      exact h

theorem writeRound_first (hsend : Sendable io.net io.pid fd n) (hlen : len ≠ 0)
    (hok : userReadRangeOk io.kernel buf len = true) :
    ∃ io₁ mac ipSum udpSum, io₁.net.driver.sent =
        datagramFrame io.net (io.net.sockets n) mac ipSum udpSum
          (readBytes io.mem buf.toNat (min len.toNat 128)) :: io.net.driver.sent ∧
      (writeRound fd buf len io 0 = (io₁, .stop aegisEio) ∨
        writeRound fd buf len io 0 = (io₁, .go (.ofNat (min len.toNat 128)))) := by
  have hlt : (0 : UInt64) < len := UInt64.pos_iff_ne_zero.mpr hlen
  obtain ⟨hchunk, hne⟩ := chunkOf_spec hlt
  have hchunk' : chunkOf len 0 = .ofNat (min len.toNat 128) := by
    rw [← UInt64.ofNat_toNat (x := chunkOf len 0), hchunk]
    rfl
  have hcopy : copyFromUserChecked io.kernel io.mem (buf + 0) (.ofNat (min len.toNat 128)) =
      .ok (readBytes io.mem buf.toNat (min len.toNat 128)) :=
    copyFromUserChecked_chunk hok 0 (by omega) (by omega) io.mem
  set data := readBytes io.mem buf.toNat (min len.toNat 128) with hdata
  have hlength : data.length = min len.toNat 128 := length_readBytes _ _ _
  have hdatane : data ≠ [] := fun h0 => by simp [h0] at hlength; omega
  obtain ⟨⟨mac, ipSum, udpSum, hframe⟩, hret⟩ := netSocketSend_sent hsend hdatane (by omega)
  refine ⟨io.withNet (netSocketSend io.net io.pid fd data).1, mac, ipSum, udpSum, hframe, ?_⟩
  unfold SocketIo.pid at hret
  unfold writeRound SocketIo.pid
  dsimp only
  rw [hchunk', hcopy]
  dsimp only
  rcases hret with hret | hret
  · right
    have hsame : (UInt64.ofNat (min len.toNat 128)).toNat = min len.toNat 128 :=
      (congrArg UInt64.toNat hchunk').symm.trans hchunk
    rw [hret, if_neg (by omega), Int.toNat_natCast, hlength, hsame, if_neg (Nat.lt_irrefl _),
      UInt64.zero_add]
  · left
    rw [hret, if_pos (by decide)]
    rfl

end

section
variable {io : SocketIo} {fd buf len : UInt64} {n : Fin 64}
variable (h : WriteCall io fd buf len n)
include h

theorem WriteCall.loop (hlen : len ≠ 0) :
    sysWriteSocket io fd buf len =
      socketLoop (writeRound (intOf fd) buf len) len (len.toNat + 1) io 0 := by
  have hok := h.buffer hlen
  obtain ⟨hbuf, -, -⟩ := (regionCheck_read io.kernel).accepted hok
  unfold sysWriteSocket
  rw [if_neg (by simp [hbuf, hlen, hok])]

theorem WriteCall.first (hlen : len ≠ 0) {io' : SocketIo} {ret : Int}
    (hcall : sysWriteSocket io fd buf len = some (io', ret)) :
    ∃ mac ipSum udpSum, datagramFrame io.net (io.net.sockets n) mac ipSum udpSum
      (readBytes io.mem buf.toNat (min len.toNat 128)) :: io.net.driver.sent <:+ io'.net.driver.sent := by
  have hlt : (0 : UInt64) < len := UInt64.pos_iff_ne_zero.mpr hlen
  obtain ⟨io₁, mac, ipSum, udpSum, hsent, hround⟩ := writeRound_first h.socket hlen (h.buffer hlen)
  refine ⟨mac, ipSum, udpSum, hsent ▸ ?_⟩
  rw [h.loop hlen] at hcall
  rcases hround with hstop | hgo
  · rw [socketLoop_stop _ hlt hstop] at hcall
    cases hcall
    exact suffix_refl _
  rw [socketLoop_go _ hlt hgo] at hcall
  have hkept : WriteKept io (intOf fd) n (writeRound (intOf fd) buf len io 0).1 :=
    writeRound_kept ⟨h.socket.held, h.socket.dgram, suffix_refl _⟩ 0
  rw [hgo] at hkept
  exact (writeLoop_kept _ _ ⟨hkept.held, hkept.dgram, suffix_refl _⟩ hcall).sent

theorem WriteCall.short (hone : SendsOne io fd buf len n) : len ≠ 0 ∧ len.toNat ≤ 128 := by
  obtain ⟨io', ret, mac, ipSum, udpSum, hcall, hsent⟩ := hone
  have hlen : len ≠ 0 := by
    rintro rfl
    unfold sysWriteSocket at hcall
    rw [if_pos (.inr (.inl rfl))] at hcall
    cases hcall
    exact cons_ne_self _ _ hsent.symm
  refine ⟨hlen, ?_⟩
  obtain ⟨mac₁, ipSum₁, udpSum₁, hsuffix⟩ := h.first hlen hcall
  rw [hsent] at hsuffix
  -- a frame was sent for the first chunk, so it is the one frame of the call
  have hframe := (cons_eq_cons.mp (hsuffix.eq_of_length rfl)).1
  have hsize := congrArg length hframe
  rw [length_datagramFrame, length_datagramFrame, length_readBytes, length_readBytes] at hsize
  omega

theorem WriteCall.sendsOne (hlen : len ≠ 0) (hshort : len.toNat ≤ 128) :
    SendsOne io fd buf len n := by
  have hpos : len.toNat ≠ 0 := fun h0 => hlen (UInt64.toNat_inj.mp h0)
  have hlt : (0 : UInt64) < len := UInt64.pos_iff_ne_zero.mpr hlen
  obtain ⟨io₁, mac, ipSum, udpSum, hsent, hround⟩ := writeRound_first h.socket hlen (h.buffer hlen)
  rw [Nat.min_eq_left hshort] at hsent hround
  have hcall : ∃ ret, sysWriteSocket io fd buf len = some (io₁, ret) := by
    rw [h.loop hlen]
    rcases hround with hstop | hgo
    · exact ⟨_, socketLoop_stop _ hlt hstop⟩
    rw [UInt64.ofNat_toNat] at hgo
    obtain ⟨fuel, hfuel⟩ := Nat.exists_eq_succ_of_ne_zero hpos
    refine ⟨len.toNat, (socketLoop_go _ hlt hgo).trans ?_⟩
    rw [hfuel, socketLoop_end fuel (UInt64.lt_irrefl len), hfuel]
  obtain ⟨ret, hcall⟩ := hcall
  exact ⟨io₁, ret, mac, ipSum, udpSum, hcall, hsent⟩

theorem sendsOne_iff : SendsOne io fd buf len n ↔ len ≠ 0 ∧ len.toNat ≤ 128 :=
  ⟨h.short, fun hlen => h.sendsOne hlen.1 hlen.2⟩

end

/-- A read delivers one whole datagram exactly when one round is enough for it and no other
datagram comes meanwhile, for `sys_recv` neither in the poll before the read; a write sends its bytes as one datagram exactly when they fit one
chunk. -/
theorem datagram_boundaries_iff (io : SocketIo) (fd buf len : UInt64) (n : Fin 64) :
    (∀ t d, ReadCall io fd buf len n t d →
      (ReceivesOne sysReadSocket io fd buf len t ↔ OneRound io len t d) ∧
      (ReceivesOne sysRecv io fd buf len t ↔
        arrivals t 1 io = [] ∧ OneRound io.polled len t d)) ∧
    (WriteCall io fd buf len n → (SendsOne io fd buf len n ↔ len ≠ 0 ∧ len.toNat ≤ 128)) :=
  ⟨fun _ _ h => ⟨receivesOne_iff h, recvOne_iff h⟩, sendsOne_iff⟩

/-! A process with a bound socket. -/

def initProcess : State :=
  (processBindCurrentUserImage initTaskRunning (cstr "aegis-init") someImage 1 0).1

/-- The first process runs and holds a UDP socket with a datagram in it. -/
def chatting (bytes : List UInt8) : SocketIo where
  kernel := { initProcess with
    net := { quiet with
      udp := fun t => if t.val = 0 then ⟨9, true, bytes, 0x0100000A, 7, true⟩ else quiet.udp t
      sockets := fun n =>
        if n.val = 0 then ⟨true, 1, .dgram, 9, 7, 0xFFFFFFFF, 0, false, false⟩ else quiet.sockets n } }
  mem := fun _ => 0
  frames := []
  arrived := fun _ => []

theorem chatting_pid (bytes : List UInt8) : (chatting bytes).pid = 1 := by
  have hpid := processGetpid_net initProcess (chatting bytes).net
  have hone : processGetpid initProcess = 1 := by decide +kernel
  exact congrArg UInt32.toNat (hpid.trans hone)

theorem chatting_reads (bytes : List UInt8) :
    ReadCall (chatting bytes) 0x1000 0x8000 300 0 0 ⟨bytes, 0x0100000A, 7⟩ := by
  refine ⟨⟨?_, rfl, rfl⟩, rfl, fun _ => ?_, rfl⟩
  · rw [chatting_pid]
    rfl
  · have hok := congrFun (congrFun (userWriteRangeOk_net initProcess (chatting bytes).net) 0x8000) 300
    have hplain : userWriteRangeOk initProcess 0x8000 300 = true := by decide +kernel
    exact hok.trans hplain

theorem chatting_writes (bytes : List UInt8) (len : UInt64)
    (hlen : userReadRangeOk initProcess 0x8000 len = true ∧ len.toNat ≤ 1492) :
    WriteCall (chatting bytes) 0x1000 0x8000 len 0 := by
  refine ⟨⟨?_, rfl, ?_, ?_, ?_, rfl, rfl, .inl rfl⟩, fun _ => ?_, hlen.2⟩
  · rw [chatting_pid]
    rfl
  · have hport : ((chatting bytes).net.sockets 0).localPort = 9 := rfl
    rw [hport]
    decide
  · have hip : ((chatting bytes).net.sockets 0).remoteIp = 0xFFFFFFFF := rfl
    rw [hip]
    decide
  · have hport : ((chatting bytes).net.sockets 0).remotePort = 7 := rfl
    rw [hport]
    decide
  · have hok := congrFun (congrFun (userReadRangeOk_net initProcess (chatting bytes).net) 0x8000) len
    exact hok.trans hlen.1

/-- A datagram of three bytes is received whole, and three bytes are sent as one. -/
theorem short_datagrams_whole : ReceivesOne sysReadSocket (chatting [1, 2, 3]) 0x1000 0x8000 300 0 ∧
      ReceivesOne sysRecv (chatting [1, 2, 3]) 0x1000 0x8000 300 0 ∧
      SendsOne (chatting [1, 2, 3]) 0x1000 0x8000 3 0 := by
  obtain ⟨hread, hrecv⟩ := (datagram_boundaries_iff _ _ _ _ 0).1 _ _ (chatting_reads [1, 2, 3])
  have hshort : [1, 2, 3].length < 128 := by decide
  exact ⟨hread.mpr ⟨by decide, by decide +kernel, .inr (.inl hshort)⟩,
    hrecv.mpr ⟨by decide +kernel, by decide, by decide +kernel, .inr (.inl hshort)⟩,
    ((datagram_boundaries_iff _ _ _ _ 0).2
      (chatting_writes [1, 2, 3] 3 (by decide +kernel))).mpr (by decide)⟩

/-- Of a datagram of 200 bytes `sys_recv` into a larger buffer delivers 128 and drops the rest,
and a write of 200 bytes is sent as two datagrams. -/
theorem long_datagrams_split : (ReadCall (chatting (replicate 200 7)) 0x1000 0x8000 300 0 0
        ⟨replicate 200 7, 0x0100000A, 7⟩ ∧
      ¬ReceivesOne sysRecv (chatting (replicate 200 7)) 0x1000 0x8000 300 0 ∧
      ∃ io', sysRecv (chatting (replicate 200 7)) 0x1000 0x8000 300 = some (io', 128) ∧
        (io'.net.udp 0).pending.length = 0) ∧
    WriteCall (chatting []) 0x1000 0x8000 200 0 ∧ ¬SendsOne (chatting []) 0x1000 0x8000 200 0 ∧
      ∃ io', sysWriteSocket (chatting []) 0x1000 0x8000 200 = some (io', 200) ∧
        io'.net.driver.sent.map length = [42 + 72, 42 + 128] := by
  have hwrite := chatting_writes [] 200 (by decide +kernel)
  refine ⟨⟨chatting_reads _, fun hone => ?_, ?_⟩, hwrite, fun hone => ?_, ?_⟩
  · obtain ⟨-, -, -, hround⟩ := (recvOne_iff (chatting_reads _)).mp hone
    revert hround
    decide +kernel
  · have h : (sysRecv (chatting (replicate 200 7)) 0x1000 0x8000 300).any
        (fun r => decide (r.2 = 128 ∧ (r.1.net.udp 0).pending.length = 0)) = true := by
      decide +kernel
    obtain ⟨⟨io', ret⟩, hcall, hr⟩ := (Option.any_eq_true _ _).mp h
    obtain ⟨rfl, hnone⟩ := of_decide_eq_true hr
    exact ⟨io', hcall, hnone⟩
  · exact absurd (hwrite.short hone) (by decide)
  · have h : (sysWriteSocket (chatting []) 0x1000 0x8000 200).any
        (fun r => decide (r.2 = 200 ∧ r.1.net.driver.sent.map length = [42 + 72, 42 + 128])) =
          true := by
      decide +kernel
    obtain ⟨⟨io', ret⟩, hcall, hr⟩ := (Option.any_eq_true _ _).mp h
    obtain ⟨rfl, hsent⟩ := of_decide_eq_true hr
    exact ⟨io', hcall, hsent⟩

end AegisOS.Kernel
