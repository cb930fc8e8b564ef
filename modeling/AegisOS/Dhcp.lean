import AegisOS.NetTables
import AegisOS.Lib.Reads

/-! The DHCP client (`net/dhcp.c`). A message is the memory behind the pointer it is passed by,
since the options are read without regard to its length; the calls of the client to the layers
below are recorded in order. -/
namespace AegisOS.Dhcp
open ByteStore Net List

inductive State
  | init | selecting | requesting | bound | renewing
  deriving DecidableEq

structure Context where
  offeredIp : UInt32
  serverIp : UInt32
  subnetMask : UInt32
  gateway : UInt32
  dnsServer : UInt32
  leaseTime : UInt32
  xid : UInt32
  state : State

inductive Call
  | udpSend (dstIp : UInt32) (dstPort srcPort : UInt16) (data : List UInt8)
  | ipv4SetAddr (ip : UInt32)
  | ipv4SetNetmask (mask : UInt32)
  | ipv4SetGateway (gw : UInt32)
  deriving DecidableEq

/-- `dhcp_ctx`, `xid_seed`, the hardware address and the calls made so far. -/
structure Client where
  ctx : Context
  xidSeed : UInt32
  mac : Mac
  calls : List Call

/-! The messages of the client. -/

def dhcpServerPort : UInt16 := 67
def dhcpClientPort : UInt16 := 68

def dhcpAddOption (opts : List UInt8) (type : UInt8) (data : List UInt8) : List UInt8 :=
  opts ++ [type, .ofNat data.length] ++ data

def dhcpOptions (c : Context) (msgType : UInt8) : List UInt8 :=
  let opts := dhcpAddOption [] 53 [msgType]
  let opts :=
    if msgType = 3 then
      dhcpAddOption (dhcpAddOption opts 50 (bytes32 c.offeredIp)) 54 (bytes32 c.serverIp)
    else opts
  dhcpAddOption opts 55 [1, 3, 6, 51] ++ [255]

/-- The packet up to the end of its options, which is what is sent. -/
def dhcpBuildPacket (c : Client) (msgType : UInt8) : List UInt8 :=
  [1, 1, 6, 0] ++ bytes32 c.ctx.xid ++ [0, 0] ++ [0x80, 0] ++ replicate 16 0 ++ c.mac.val ++
    replicate 202 0 ++ [0x63, 0x82, 0x53, 0x63] ++ dhcpOptions c.ctx msgType

def Client.call (c : Client) (call : Call) : Client := { c with calls := c.calls ++ [call] }

/-- The broadcasts of `dhcp_discover` and `dhcp_request`. -/
def Client.broadcast (c : Client) (msgType : UInt8) : Client :=
  c.call (.udpSend 0xFFFFFFFF dhcpServerPort dhcpClientPort (dhcpBuildPacket c msgType))

def dhcpDiscover (c : Client) : Client :=
  let seed := c.xidSeed * 1103515245 + 12345
  ({ c with xidSeed := seed, ctx := { c.ctx with xid := seed, state := .selecting } }).broadcast 1

def dhcpRequest (c : Client) (offeredIp : UInt32) : Client :=
  ({ c with ctx := { c.ctx with offeredIp := offeredIp, state := .requesting } }).broadcast 3

/-! The options of a message. -/

inductive Param
  | subnetMask | gateway | dnsServer | leaseTime | serverIp
  deriving DecidableEq

def Param.ofType : UInt8 → Option Param
  | 1 => some .subnetMask
  | 3 => some .gateway
  | 6 => some .dnsServer
  | 51 => some .leaseTime
  | 54 => some .serverIp
  | _ => none

def Context.get (c : Context) : Param → UInt32
  | .subnetMask => c.subnetMask
  | .gateway => c.gateway
  | .dnsServer => c.dnsServer
  | .leaseTime => c.leaseTime
  | .serverIp => c.serverIp

def Context.set (c : Context) (v : UInt32) : Param → Context
  | .subnetMask => { c with subnetMask := v }
  | .gateway => { c with gateway := v }
  | .dnsServer => { c with dnsServer := v }
  | .leaseTime => { c with leaseTime := v }
  | .serverIp => { c with serverIp := v }

/-- The addresses are kept in network order, the time is converted. -/
def Param.load (p : Param) (opts : Store) (i : Nat) : UInt32 :=
  match p with
  | .leaseTime => .ofNat (leNat (readBytes opts i 4).reverse)
  | _ => loadU32 opts i

/-- An option by its type, its length and where its data starts. -/
structure Opt where
  type : UInt8
  len : UInt8
  pos : Nat

/-- The `switch` of the loop, on the context and `msg_type`. -/
def takeOption (opts : Store) (acc : Context × UInt8) (o : Opt) : Context × UInt8 :=
  if o.type = 53 then (acc.1, opts o.pos)
  else
    match Param.ofType o.type with
    | some p => if 4 ≤ o.len then (acc.1.set (p.load opts o.pos) p, acc.2) else acc
    | none => acc

/-- The loop over the options; every round goes on by a byte at least. -/
def optionLoop (opts : Store) : Nat → Nat → Context × UInt8 → Context × UInt8
  | 0, _, acc => acc
  | fuel + 1, i, acc =>
    if i < 312 ∧ opts i ≠ 255 then
      if opts i = 0 then optionLoop opts fuel (i + 1) acc
      else
        let o := ⟨opts i, opts (i + 1), i + 2⟩
        optionLoop opts fuel (i + 2 + o.len.toNat) (takeOption opts acc o)
    else acc

/-! Messages that arrive. -/

structure Message where
  data : Store
  len : UInt16

/-- `sizeof(dhcp_packet_t) - 312` -/
def optionsOffset : Nat := 240

def Message.op (m : Message) : UInt8 := m.data 0
def Message.xid (m : Message) : UInt32 := loadU32 m.data 4
def Message.yiaddr (m : Message) : UInt32 := loadU32 m.data 16
def Message.opts (m : Message) : Store := fun i => m.data (optionsOffset + i)

def heard (c : Context) (m : Message) : Bool :=
  optionsOffset ≤ m.len.toNat ∧ m.op = 2 ∧ m.xid = c.xid

def dhcpReact (c : Client) (msgType : UInt8) (yiaddr : UInt32) : Client :=
  match c.ctx.state with
  | .selecting => if msgType = 2 then dhcpRequest c yiaddr else c
  | .requesting =>
    if msgType = 5 then
      let c := c.call (.ipv4SetAddr c.ctx.offeredIp)
      let c := c.call (.ipv4SetNetmask c.ctx.subnetMask)
      let c := c.call (.ipv4SetGateway c.ctx.gateway)
      { c with ctx := { c.ctx with state := .bound } }
    else if msgType = 6 then dhcpDiscover { c with ctx := { c.ctx with state := .init } }
    else c
  | _ => c

def dhcpHandleResponse (c : Client) (m : Message) : Client :=
  if heard c.ctx m then
    let read := optionLoop m.opts 312 0 (c.ctx, 0)
    dhcpReact { c with ctx := read.1 } read.2 m.yiaddr
  else c

/-! What the options of a message say. -/

def optionsFrom (opts : Store) : Nat → Nat → List Opt
  | 0, _ => []
  | fuel + 1, i =>
    if i < 312 ∧ opts i ≠ 255 then
      if opts i = 0 then optionsFrom opts fuel (i + 1)
      else
        ⟨opts i, opts (i + 1), i + 2⟩ :: optionsFrom opts fuel (i + 2 + (opts (i + 1)).toNat)
    else []

def Message.options (m : Message) : List Opt := optionsFrom m.opts 312 0

def Opt.carries (o : Opt) (p : Param) : Bool := Param.ofType o.type = some p ∧ 4 ≤ o.len

def Message.param (m : Message) (p : Param) : Option UInt32 :=
  ((m.options.filter fun o => o.carries p).getLast?).map fun o => p.load m.opts o.pos

def Message.type (m : Message) : UInt8 :=
  ((m.options.filter fun o => o.type = 53).getLast?).elim 0 fun o => m.opts o.pos

section
variable {opts : Store} {acc : Context × UInt8} {fuel i : Nat}

theorem optionLoop_eq : optionLoop opts fuel i acc =
    (optionsFrom opts fuel i).foldl (takeOption opts) acc := by
  induction fuel generalizing i acc with
  | zero => rfl
  | succ fuel ih =>
    rw [optionLoop, optionsFrom]
    split
    · split
      · exact ih
      · rw [foldl_cons, ih]
    · rfl

theorem Context.get_set (c : Context) (v : UInt32) (p q : Param) :
    (c.set v p).get q = if p = q then v else c.get q := by
  cases p <;> cases q <;> rfl

def Context.rest (c : Context) : UInt32 × UInt32 × State := (c.offeredIp, c.xid, c.state)

theorem takeOption_get (o : Opt) (p : Param) : (takeOption opts acc o).1.get p =
    if o.carries p then p.load opts o.pos else acc.1.get p := by
  unfold takeOption Opt.carries
  split
  next htype => simp [htype, Param.ofType]
  cases Param.ofType o.type with
  | none => simp
  | some q =>
    by_cases hlen : 4 ≤ o.len
    · by_cases hpq : q = p <;> simp [hlen, hpq, Context.get_set]
    · simp [hlen]

theorem takeOption_type (o : Opt) : (takeOption opts acc o).2 =
    if o.type = 53 then opts o.pos else acc.2 := by
  unfold takeOption
  split
  · rfl
  split
  · split <;> rfl
  · rfl

variable (opts acc) in
theorem takeOption_rest (o : Opt) : (takeOption opts acc o).1.rest = acc.1.rest := by
  unfold takeOption
  split
  · rfl
  split
  next p _ =>
    split
    · cases p <;> rfl
    · rfl
  · rfl

theorem foldl_last {α β : Type} (f : α → Opt → α) (view : α → β) (here : Opt → Bool)
    (value : Opt → β) (h : ∀ a o, view (f a o) = if here o then value o else view a) (l : List Opt)
    (a : α) : view (l.foldl f a) = ((l.filter here).getLast?).elim (view a) value := by
  induction l generalizing a with
  | nil => rfl
  | cons o l ih =>
    rw [foldl_cons, ih, h]
    cases hhere : here o with
    | false => simp [hhere]
    | true =>
      rw [filter_cons_of_pos hhere, getLast?_cons]
      cases (l.filter here).getLast? <;> rfl

end

section
variable (c : Context) (m : Message)

def readOptions : Context := (optionLoop m.opts 312 0 (c, 0)).1

theorem readOptions_type : (optionLoop m.opts 312 0 (c, 0)).2 = m.type := by
  rw [optionLoop_eq]
  refine foldl_last (takeOption m.opts) Prod.snd (fun o => o.type = 53) (fun o => m.opts o.pos)
    (fun acc o => ?_) _ _
  simp only [takeOption_type, decide_eq_true_eq]

theorem readOptions_get (p : Param) : (readOptions c m).get p = (m.param p).getD (c.get p) := by
  have hlast := foldl_last (takeOption m.opts) (fun acc => acc.1.get p) (fun o => o.carries p)
    (fun o => p.load m.opts o.pos) (fun acc o => takeOption_get o p) m.options (c, 0)
  rw [readOptions, optionLoop_eq]
  refine hlast.trans ?_
  rw [Message.param]
  cases (m.options.filter fun o => o.carries p).getLast? <;> rfl

theorem readOptions_rest : (readOptions c m).rest = c.rest := by
  rw [readOptions, optionLoop_eq]
  generalize optionsFrom m.opts 312 0 = l
  generalize (0 : UInt8) = t
  induction l generalizing c t with
  | nil => rfl
  | cons o l ih => exact (ih _ _).trans (takeOption_rest m.opts (c, t) o)

end

/-! Which bytes `dhcp_handle_response` reads, and what its effect depends on. -/
open Reads Nat

/-- The bytes of an option's data that are looked at. -/
def Opt.used (o : Opt) : Nat :=
  if o.type = 53 then 1 else if (Param.ofType o.type).isSome ∧ 4 ≤ o.len then 4 else 0

/-- The reads of the option loop, by their offsets in the message. -/
def optionReads (opts : Store) : Nat → Nat → Ranges
  | 0, _ => []
  | fuel + 1, i =>
    if i < 312 then
      (optionsOffset + i, 1) ::
        if opts i = 255 then []
        else if opts i = 0 then optionReads opts fuel (i + 1)
        else
          let o : Opt := ⟨opts i, opts (i + 1), i + 2⟩
          (optionsOffset + (i + 1), 1) :: (optionsOffset + o.pos, o.used) ::
            optionReads opts fuel (o.pos + o.len.toNat)
    else []

def responseReads (c : Context) (m : Message) : Ranges :=
  if m.len.toNat < optionsOffset then []
  else
    (0, 1) ::
      if m.op ≠ 2 then []
      else
        (4, 4) ::
          if m.xid ≠ c.xid then []
          else
            optionReads m.opts 312 0 ++
              if c.state = .selecting ∧ m.type = 2 then [(16, 4)] else []

/-- Where the walk ends: behind the END option, or behind what is used of the entry that takes it
past its limit. -/
def walkEnd (opts : Store) : Nat → Nat → Nat → Nat
  | 0, _, last => last
  | fuel + 1, i, last =>
    if i < 312 then
      if opts i = 255 then i + 1
      else if opts i = 0 then walkEnd opts fuel (i + 1) (i + 1)
      else
        let o : Opt := ⟨opts i, opts (i + 1), i + 2⟩
        walkEnd opts fuel (o.pos + o.len.toNat) (o.pos + o.used)
    else last

def Message.walkEnd (m : Message) : Nat := optionsOffset + Dhcp.walkEnd m.opts 312 0 0

section
variable {opts opts' : Store} {fuel i last n : Nat}

theorem used_le (o : Opt) : o.used ≤ o.len.toNat + 1 := by
  unfold Opt.used
  split
  · omega
  split
  next h =>
    have := UInt8.le_iff_toNat_le.mp h.2
    have h4 : (4 : UInt8).toNat = 4 := rfl
    omega
  · omega

/-- Whatever is read on the way lies before the end, since each entry is used at most up to the
byte where the next one starts. -/
theorem below_walk (h : last ≤ i + 1) : Below (optionReads opts fuel i) n ∧
    optionsOffset + last ≤ n ↔ optionsOffset + walkEnd opts fuel i last ≤ n := by
  induction fuel generalizing i last with
  | zero => simp [optionReads, walkEnd]
  | succ fuel ih =>
    rw [optionReads, walkEnd]
    by_cases hi : i < 312
    · rw [if_pos hi, if_pos hi]
      split
      · simp only [below_cons, below_nil, and_true]
        omega
      split
      · rw [← ih (le_succ _), below_cons]
        constructor
        · rintro ⟨⟨hhere, hrest⟩, -⟩
          exact ⟨hrest, by omega⟩
        · rintro ⟨hrest, hhere⟩
          exact ⟨⟨by omega, hrest⟩, by omega⟩
      · have hused := used_le ⟨opts i, opts (i + 1), i + 2⟩
        dsimp only at hused ⊢
        rw [← ih (by omega), below_cons, below_cons, below_cons]
        constructor
        · rintro ⟨⟨-, hlen, hdata, hrest⟩, -⟩
          exact ⟨hrest, by omega⟩
        · rintro ⟨hrest, hdata⟩
          exact ⟨⟨by omega, by omega, by omega, hrest⟩, by omega⟩
    · simp [hi]

theorem takeOption_agrees (acc : Context × UInt8) (o : Opt)
    (h : ∀ x, x < o.used → opts' (o.pos + x) = opts (o.pos + x)) :
    takeOption opts' acc o = takeOption opts acc o := by
  unfold takeOption
  unfold Opt.used at h
  split
  next h53 => simpa [h53] using h
  rename_i h53
  split
  next p hp =>
    split
    next hlen =>
      have hread : readBytes opts' o.pos 4 = readBytes opts o.pos 4 :=
        readBytes_congr fun x hx => h x (by simpa [h53, hp, hlen] using hx)
      have hload : p.load opts' o.pos = p.load opts o.pos := by
        cases p <;> simp only [Param.load, loadU32, hread]
      rw [hload]
    · rfl
  · rfl

theorem optionLoop_agrees (h : ∀ x, optionsOffset + x < n → opts' x = opts x)
    (hreads : Below (optionReads opts fuel i) n) (acc : Context × UInt8) :
    optionLoop opts' fuel i acc = optionLoop opts fuel i acc := by
  induction fuel generalizing i acc with
  | zero => rfl
  | succ fuel ih =>
    rw [optionReads] at hreads
    rw [optionLoop, optionLoop]
    by_cases hi : i < 312
    · rw [if_pos hi, below_cons] at hreads
      rw [h i (by omega)]
      split
      next hopt =>
        rw [if_neg hopt.2] at hreads
        split
        next hpad =>
          rw [if_pos hpad] at hreads
          exact ih hreads.2 acc
        rename_i hpad
        rw [if_neg hpad] at hreads
        simp only [below_cons] at hreads
        obtain ⟨-, htype, hdata, hrest⟩ := hreads
        rw [h (i + 1) (by omega)]
        dsimp only
        rw [takeOption_agrees acc _ fun x hx => h _ (by dsimp only at *; omega)]
        exact ih hrest _
      · rfl
    · simp [hi]

variable {m m' : Message}

theorem below_response (c : Context) : Below (responseReads c m) m.len.toNat ↔
    (heard c m = true → m.walkEnd ≤ m.len.toNat) := by
  have hoffset : optionsOffset = 240 := rfl
  rw [responseReads, heard, decide_eq_true_iff]
  by_cases hlen : m.len.toNat < optionsOffset
  · rw [if_pos hlen]
    exact iff_of_true below_nil fun h => by omega
  by_cases hop : m.op = 2
  · by_cases hxid : m.xid = c.xid
    · have hwalk : Below (optionReads m.opts 312 0) m.len.toNat ∧ optionsOffset + 0 ≤ m.len.toNat ↔
          m.walkEnd ≤ m.len.toNat := below_walk (zero_le _)
      have hfield : Below (if c.state = .selecting ∧ m.type = 2 then [(16, 4)] else [])
          m.len.toNat := by
        split
        · exact below_range.mpr (.inr (by omega))
        · exact below_nil
      simp only [hlen, hop, hxid, if_false, ne_eq, not_true_eq_false, below_cons, below_append,
        hfield, and_true, ← hwalk]
      constructor
      · exact fun h _ => ⟨h.2.2, by omega⟩
      · exact fun h => ⟨by omega, by omega, (h (by omega)).1⟩
    · simp only [hlen, hop, hxid, if_false, ne_eq, not_true_eq_false, not_false_eq_true, if_true,
        below_cons, below_nil, and_false, false_implies, iff_true, and_true]
      omega
  · simp only [hlen, hop, if_false, ne_eq, not_false_eq_true, if_true, below_cons, below_nil,
      false_and, and_false, false_implies, iff_true, and_true]
    omega

theorem response_agrees (c : Client) (hlen : m'.len = m.len)
    (hsame : ∀ x < m.len.toNat, m'.data x = m.data x)
    (hend : heard c.ctx m = true → m.walkEnd ≤ m.len.toNat) :
    dhcpHandleResponse c m' = dhcpHandleResponse c m := by
  have hoffset : optionsOffset = 240 := rfl
  by_cases hshort : m.len.toNat < optionsOffset
  · simp [dhcpHandleResponse, heard, hlen, not_le.mpr hshort]
  have hfield : ∀ off, off + 4 ≤ 240 → loadU32 m'.data off = loadU32 m.data off := by
    intro off hoff
    rw [loadU32, loadU32, readBytes_congr fun x hx => hsame _ (by omega)]
  have hop : m'.op = m.op := hsame 0 (by omega)
  have hxid : m'.xid = m.xid := hfield 4 (by omega)
  have hyiaddr : m'.yiaddr = m.yiaddr := hfield 16 (by omega)
  have hheard : heard c.ctx m' = heard c.ctx m := by
    unfold heard
    rw [hlen, hop, hxid]
  rw [dhcpHandleResponse, dhcpHandleResponse, hheard]
  split
  next hm =>
    have hreads : Below (optionReads m.opts 312 0) m.len.toNat ∧ optionsOffset + 0 ≤ m.len.toNat :=
      (below_walk (zero_le _)).mpr (hend hm)
    have hopts : ∀ x, optionsOffset + x < m.len.toNat → m'.opts x = m.opts x := fun _ => hsame _
    rw [optionLoop_agrees hopts hreads.1, hyiaddr]
  · rfl

end

/-- Of a message that is for this client the handler reads nothing behind the length, and does the
same whatever stands there, exactly if the walk over its options ends inside. -/
theorem response_confined_iff (c : Client) (m : Message) :
    (Below (responseReads c.ctx m) m.len.toNat ∧
      ∀ m' : Message, m'.len = m.len → (∀ x < m.len.toNat, m'.data x = m.data x) →
        dhcpHandleResponse c m' = dhcpHandleResponse c m) ↔
      (heard c.ctx m = true → m.walkEnd ≤ m.len.toNat) :=
  ⟨fun h => (below_response c.ctx).mp h.1, fun h => ⟨(below_response c.ctx).mpr h,
    fun _ hlen hsame => response_agrees c hlen hsame h⟩⟩

/-- A reply of 240 bytes, with the memory behind it. -/
def shortReply (behind : List UInt8) : Message :=
  ⟨ofList (2 :: List.replicate 239 0 ++ behind), 240⟩

def waiting : Client := ⟨⟨0, 0, 0, 0, 0, 0, 0, .requesting⟩, 0, .zero 6, []⟩

/-- A reply without options: the bytes behind it are read, and configure the interface if they
happen to spell an acknowledgement. -/
theorem memory_behind_configures : ¬Below (responseReads waiting.ctx (shortReply [255])) 240 ∧
      (dhcpHandleResponse waiting (shortReply [255])).ctx.state = .requesting ∧
      (dhcpHandleResponse waiting (shortReply [53, 1, 5, 255])).ctx.state = .bound := by
  refine ⟨?_, by decide +kernel, by decide +kernel⟩
  have hend : (shortReply [255]).walkEnd = 241 := by decide +kernel
  have hheard : heard waiting.ctx (shortReply [255]) = true := by decide +kernel
  have hlen : (shortReply [255]).len.toNat = 240 := rfl
  rw [← hlen, below_response, hend]
  exact fun h => absurd (h hheard) (by rw [hlen]; decide)

/-! Which messages may change the lease of the DHCP client. The client writes the options of every
message that carries its transaction number into its context before it looks at the type of the
message and at its own state, and it never compares the server of an acknowledgement with the one
whose offer it took. -/

/-- The client with the server identifier of the offer it has taken last. -/
structure Session where
  client : Client
  offer : Option UInt32

def Session.start (c : Client) : Session := ⟨dhcpDiscover c, none⟩

def TakesOffer (c : Context) (m : Message) : Prop :=
  heard c m = true ∧ c.state = .selecting ∧ m.type = 2
  deriving Decidable

def TakesAck (c : Context) (m : Message) : Prop :=
  heard c m = true ∧ c.state = .requesting ∧ m.type = 5
  deriving Decidable

def Session.deliver (s : Session) (m : Message) : Session :=
  ⟨dhcpHandleResponse s.client m,
    if TakesOffer s.client.ctx m then m.param .serverIp else s.offer⟩

def Session.run (s : Session) (ms : List Message) : Session := ms.foldl .deliver s

def Session.lease (s : Session) (p : Param) : UInt32 := s.client.ctx.get p

def Call.configures : Call → Bool
  | .udpSend .. => false
  | _ => true

def Session.configured (s : Session) : List Call := s.client.calls.filter Call.configures

def FromOffer (s : Session) (m : Message) : Prop :=
  ∃ id, m.param .serverIp = some id ∧ s.offer = some id

/-- The lease changes by an offer or an acknowledgement that is taken, and the interface is
configured by an acknowledgement of the server whose offer was taken. -/
structure Lawful (s : Session) (m : Message) : Prop where
  lease : (s.deliver m).lease ≠ s.lease → TakesOffer s.client.ctx m ∨ TakesAck s.client.ctx m
  configured : (s.deliver m).configured ≠ s.configured → TakesAck s.client.ctx m ∧ FromOffer s m

/-- Every message of the series is lawful, and none changes anything once the client is bound. -/
structure LeaseIntact (s : Session) (ms : List Message) : Prop where
  lawful : ∀ before m after, ms = before ++ m :: after → Lawful (s.run before) m
  bound : ∀ before after, ms = before ++ after → (s.run before).client.ctx.state = .bound →
    (s.run ms).lease = (s.run before).lease ∧ (s.run ms).configured = (s.run before).configured

/-- The message is not looked at, is an offer that is taken, is an acknowledgement of the server
whose offer was taken, or is neither and says nothing new about the lease. -/
def Proper (s : Session) (m : Message) : Prop :=
  heard s.client.ctx m = false ∨ TakesOffer s.client.ctx m ∨
    (TakesAck s.client.ctx m ∧ FromOffer s m) ∨
    (¬TakesAck s.client.ctx m ∧ ∀ p, ∀ v ∈ m.param p, v = s.lease p)

section
variable {s : Session} {m : Message}

theorem deliver_unheard (h : heard s.client.ctx m = false) :
    (s.deliver m).lease = s.lease ∧ (s.deliver m).configured = s.configured ∧
      (s.deliver m).client.ctx.state = s.client.ctx.state := by
  have hsame : (s.deliver m).client = s.client := by simp [Session.deliver, dhcpHandleResponse, h]
  unfold Session.lease Session.configured
  rw [hsame]
  exact ⟨rfl, rfl, rfl⟩

theorem Context.get_rest (c : Context) (ip xid : UInt32) (state : State) (p : Param) :
    Context.get { c with offeredIp := ip, xid := xid, state := state } p = c.get p := by
  cases p <;> rfl

theorem dhcpReact_get (c : Client) (t : UInt8) (ip : UInt32) (p : Param) :
    (dhcpReact c t ip).ctx.get p = c.ctx.get p := by
  unfold dhcpReact
  split
  · split
    · exact Context.get_rest ..
    · rfl
  · split
    · exact Context.get_rest ..
    split
    · exact Context.get_rest ..
    · rfl
  · rfl

theorem deliver_lease (h : heard s.client.ctx m = true) (p : Param) :
    (s.deliver m).lease p = (m.param p).getD (s.lease p) := by
  simp only [Session.lease, Session.deliver, dhcpHandleResponse, h, if_true, dhcpReact_get]
  exact readOptions_get s.client.ctx m p

theorem readOptions_state (c : Context) (m : Message) : (readOptions c m).state = c.state :=
  congrArg (·.2.2) (readOptions_rest c m)

theorem deliver_configured : (s.deliver m).configured ≠ s.configured ↔ TakesAck s.client.ctx m := by
  cases hheard : heard s.client.ctx m with
  | false => simp [deliver_unheard hheard, TakesAck, hheard]
  | true =>
    have hstate := readOptions_state s.client.ctx m
    simp only [Session.configured, Session.deliver, dhcpHandleResponse, hheard,
      readOptions_type, TakesAck]
    rw [← hstate]
    change (dhcpReact { s.client with ctx := readOptions s.client.ctx m } m.type
      m.yiaddr).calls.filter Call.configures ≠ _ ↔ _
    unfold dhcpReact
    cases hs : (readOptions s.client.ctx m).state with
    | selecting =>
      by_cases ht : m.type = 2
      · simp [ht, dhcpRequest, Client.broadcast, Client.call, Call.configures]
      · simp [ht]
    | requesting =>
      by_cases hack : m.type = 5
      · simp [hack, Client.call, Call.configures]
      by_cases hnak : m.type = 6
      · simp [hnak, dhcpDiscover, Client.broadcast, Client.call, Call.configures]
      · simp [hack, hnak]
    | init | bound | renewing => simp

theorem deliver_bound (h : s.client.ctx.state = .bound) :
    (s.deliver m).client.ctx.state = .bound := by
  cases hheard : heard s.client.ctx m with
  | false => rw [(deliver_unheard hheard).2.2, h]
  | true =>
    have hstate := (readOptions_state s.client.ctx m).trans h
    simp only [Session.deliver, dhcpHandleResponse, hheard]
    change (dhcpReact { s.client with ctx := readOptions s.client.ctx m } _ _).ctx.state = _
    simp [dhcpReact, hstate]

theorem lawful_iff_proper : Lawful s m ↔ Proper s m := by
  constructor
  · intro h
    cases hheard : heard s.client.ctx m with
    | false => exact .inl hheard
    | true =>
      by_cases hoffer : TakesOffer s.client.ctx m
      · exact .inr (.inl hoffer)
      by_cases hack : TakesAck s.client.ctx m
      · exact .inr (.inr (.inl (h.configured (deliver_configured.mpr hack))))
      refine .inr (.inr (.inr ⟨hack, fun p v hv => ?_⟩))
      have hsame : (s.deliver m).lease = s.lease := by
        by_contra hne
        exact (h.lease hne).elim hoffer hack
      have hget := deliver_lease hheard p
      rw [hsame, Option.mem_def.mp hv] at hget
      exact hget.symm
  · intro h
    refine ⟨fun hne => ?_, fun hne => ?_⟩
    · rcases h with hheard | hoffer | hack | ⟨-, hsame⟩
      · exact absurd (deliver_unheard hheard).1 hne
      · exact .inl hoffer
      · exact .inr hack.1
      cases hheard : heard s.client.ctx m with
      | false => exact absurd (deliver_unheard hheard).1 hne
      | true =>
        refine absurd (funext fun p => ?_) hne
        rw [deliver_lease hheard p]
        cases hv : m.param p with
        | none => rfl
        | some v => exact hsame p v hv
    · have hack := deliver_configured.mp hne
      rcases h with hheard | hoffer | hfrom | ⟨hnot, -⟩
      · exact absurd (hheard.symm.trans hack.1) (by decide)
      · exact absurd (hoffer.2.1.symm.trans hack.2.1) (by decide)
      · exact hfrom
      · exact absurd hack hnot

theorem Lawful.keeps (h : Lawful s m) (hbound : s.client.ctx.state = .bound) :
    (s.deliver m).lease = s.lease ∧ (s.deliver m).configured = s.configured := by
  have hack : ¬TakesAck s.client.ctx m := fun hack =>
    absurd (hbound.symm.trans hack.2.1) (by decide)
  constructor <;> by_contra hne
  · rcases h.lease hne with hoffer | hack'
    · exact absurd (hbound.symm.trans hoffer.2.1) (by decide)
    · exact hack hack'
  · exact hack (deliver_configured.mp hne)

theorem run_bound {ms : List Message}
    (hlawful : ∀ before m after, ms = before ++ m :: after → Lawful (s.run before) m)
    (hbound : s.client.ctx.state = .bound) :
    (s.run ms).lease = s.lease ∧ (s.run ms).configured = s.configured := by
  induction ms generalizing s with
  | nil => exact ⟨rfl, rfl⟩
  | cons m ms ih =>
    have hkeeps := (hlawful [] m ms rfl).keeps hbound
    have hrest := ih (fun before m' after heq => hlawful (m :: before) m' after (by rw [heq]; rfl))
      (deliver_bound hbound)
    exact ⟨hrest.1.trans hkeeps.1, hrest.2.trans hkeeps.2⟩

theorem run_append (s : Session) (ms ns : List Message) : s.run (ms ++ ns) = (s.run ms).run ns :=
  List.foldl_append

end

/-- The lease keeps its integrity over a series of messages exactly if every one of them is proper
where it arrives. -/
theorem lease_intact_iff (c : Client) (ms : List Message) : LeaseIntact (.start c) ms ↔
      ∀ before m after, ms = before ++ m :: after → Proper ((Session.start c).run before) m := by
  constructor
  · exact fun h before m after heq => lawful_iff_proper.mp (h.lawful before m after heq)
  intro h
  have hlawful : ∀ before m after, ms = before ++ m :: after →
      Lawful ((Session.start c).run before) m :=
    fun before m after heq => lawful_iff_proper.mpr (h before m after heq)
  refine ⟨hlawful, fun before after heq hbound => ?_⟩
  rw [heq, run_append]
  refine run_bound (fun mid m rest hmid => ?_) hbound
  rw [← run_append]
  exact hlawful (before ++ mid) m rest (by rw [heq, hmid, List.append_assoc])

def bootClient : Client := ⟨⟨0, 0, 0, 0, 0, 0, 0, .init⟩, 0x12345678, .zero 6, []⟩

/-- An answer to the first message of the client, for the address 10.0.0.7. -/
def answer (options : List UInt8) : Message :=
  ⟨ofList ([2, 1, 6, 0] ++ bytes32 (dhcpDiscover bootClient).ctx.xid ++ .replicate 8 0 ++
    [10, 0, 0, 7] ++ .replicate 220 0 ++ options), 300⟩

def sampleOffer : Message := answer [53, 1, 2, 54, 4, 10, 0, 0, 1, 3, 4, 10, 0, 0, 1, 255]
def sampleAck : Message := answer [53, 1, 5, 54, 4, 10, 0, 0, 1, 255]

/-- A message without a type, that names the router 10.0.0.66. -/
def strayRouter : Message := answer [3, 4, 10, 0, 0, 66, 255]

/-- The client is bound with the router 10.0.0.1; a message without a type changes it. -/
theorem stray_message_changes_router :
    ((Session.start bootClient).run [sampleOffer, sampleAck]).client.ctx.state = .bound ∧
      ((Session.start bootClient).run [sampleOffer, sampleAck]).lease .gateway = 0x0100000A ∧
      ((Session.start bootClient).run [sampleOffer, sampleAck, strayRouter]).lease .gateway =
        0x4200000A ∧
      ¬LeaseIntact (.start bootClient) [sampleOffer, sampleAck, strayRouter] := by
  have hbound : ((Session.start bootClient).run [sampleOffer, sampleAck]).client.ctx.state =
      .bound := by decide +kernel
  have hbefore : ((Session.start bootClient).run [sampleOffer, sampleAck]).lease .gateway =
      0x0100000A := by decide +kernel
  have hafter : ((Session.start bootClient).run [sampleOffer, sampleAck, strayRouter]).lease
      .gateway = 0x4200000A := by decide +kernel
  refine ⟨hbound, hbefore, hafter, fun h => ?_⟩
  have hsame := congrFun (h.bound [sampleOffer, sampleAck] [strayRouter] rfl hbound).1 .gateway
  rw [hbefore, hafter] at hsame
  exact absurd hsame (by decide)

end AegisOS.Dhcp
