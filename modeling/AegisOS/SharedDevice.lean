import AegisOS.ConfigFs
import AegisOS.LogFs
import AegisOS.SdCard

/-! The log and the configuration store on the device they share. The log's 65536 sectors begin
at 1024 and take in sector 2048, where the configuration store keeps its superblock. -/
namespace AegisOS.SharedDevice
open ByteStore CString ConfigFs LogFs SdCard List Option

/-- Both file systems and the card, with the entries appended and the superblock last synced. -/
structure System where
  log : Log
  config : Config
  card : Card
  appended : List (List UInt8)
  synced : Option ConfigFs.Superblock

inductive Op
  | append (tag msg : Option CStr)
  | sync
  | config (op : ConfigFs.Op)

/-- The block an operation hands to `storage_write`. -/
def request (S : System) : Op → Option (UInt32 × Store)
  | .append tag msg => (logfsAppend S.log tag msg).2.1
  | .sync => (configfsSync S.config).1
  | .config _ => none

/-- The callers do not look at the result of `storage_write`. -/
def submit (c : Card) : Option (UInt32 × Store) → Card
  | some (lba, buf) => (storageWrite c lba 1 buf).1
  | none => c

def System.after (S : System) (op : Op) : System :=
  match op with
  | .append tag msg =>
    { S with
      log := (logfsAppend S.log tag msg).1
      card := submit S.card (request S op)
      appended := S.appended ++ ((request S op).map fun r => readBytes r.2 0 entrySize).toList }
  | .sync =>
    { S with
      card := submit S.card (request S op)
      synced := if (request S op).isSome then some S.config.csb else S.synced }
  | .config op => { S with config := (perform S.config op).1 }

/-- The system once `logfs_mount` and `configfs_mount` have returned. -/
def mounted (log : Log) (config : Config) (card : Card) (path : CStr) : System where
  log := (logfsMount log (some path)).1
  config := (configfsMount config (some path) ((storageRead card 2048 1).map ofList)).1
  card := card
  appended := []
  synced := none

def run (S : System) (ops : List Op) : System := ops.foldl .after S

/-- The log has still the entry number `k`. -/
def Live (S : System) (k : Nat) : Prop := k < S.appended.length ∧ S.appended.length ≤ k + 65536

def logSector (k : Nat) : UInt32 := 1024 + .ofNat (k % 65536)

def Separate (S : System) (op : Op) : Prop :=
  ∀ lba buf, request S op = some (lba, buf) →
    match op with
    | .append _ _ => S.synced.isSome = true → lba ≠ 2048
    | _ => ∀ k, Live S k → lba ≠ logSector k

/-- What either file system stored last is what the card holds. -/
structure Stored (S : System) : Prop where
  superblock : ∀ csb, S.synced = some csb →
    ∃ b, storageRead S.card 2048 1 = some b ∧ .ofBlock (ofList b) = csb
  entries : ∀ k e, Live S k → S.appended[k]? = some e →
    ∃ b, storageRead S.card (logSector k) 1 = some b ∧ b.take entrySize = e

/-- Along the operations neither file system overwrites the other's sectors. -/
def KeptApart (S : System) (ops : List Op) : Prop :=
  (∀ pre op post, ops = pre ++ op :: post → Separate (run S pre) op) ∧
    ∀ pre post, ops = pre ++ post → Stored (run S pre)

def isSync : Op → Bool
  | .sync => true
  | _ => false

def isEntry : Op → Bool
  | .append (some _) (some _) => true
  | _ => false

/-! What every run keeps. -/

structure Layout (S : System) : Prop where
  counts : Counts S.log S.appended.length
  mounted : S.config.mounted = true
  magic : S.config.csb.magic = configfsMagic
  base : S.config.csb.baseLba = 2048

variable {S : System}

/-- The fields of the superblock that the key operations leave alone. -/
structure SameHeader (s s' : Config) : Prop where
  mounted : s'.mounted = s.mounted
  magic : s'.csb.magic = s.csb.magic
  base : s'.csb.baseLba = s.csb.baseLba

theorem SameHeader.refl (s : Config) : SameHeader s s := ⟨rfl, rfl, rfl⟩

theorem SameHeader.trans {s t u : Config} (h : SameHeader s t) (h' : SameHeader t u) :
    SameHeader s u :=
  ⟨h'.mounted.trans h.mounted, h'.magic.trans h.magic, h'.base.trans h.base⟩

theorem set_header (s : Config) (key value : CStr) :
    SameHeader s (configfsSet s (some key) (some value)).1 := by
  simp only [configfsSet]
  split_ifs
  · exact .refl s
  · split <;> exact ⟨rfl, rfl, rfl⟩

theorem perform_header (s : Config) (op : ConfigFs.Op) : SameHeader s (perform s op).1 := by
  cases op with
  | set key value => exact set_header s key value
  | get key => exact .refl s
  | delete key =>
    simp only [perform, configfsDelete]
    split_ifs
    · exact .refl s
    · split <;> exact ⟨rfl, rfl, rfl⟩

theorem defaults_header (ds : List (CStr × CStr)) (s : Config) :
    SameHeader s (ds.foldl (fun s d => (configfsSet s (some d.1) (some d.2)).1) s) := by
  induction ds generalizing s with
  | nil => exact .refl s
  | cons d ds ih => exact (set_header s d.1 d.2).trans (ih _)

theorem layout_mounted {log : Log} {config : Config} (hlog : log.mounted = false)
    (hconfig : config.mounted = false) (card : Card) (path : CStr) :
    Layout (mounted log config card path) := by
  have hheader := defaults_header defaults
    (emptied config ((storageRead card 2048 1).map ofList))
  have hmount : (SharedDevice.mounted log config card path).config =
      defaults.foldl (fun s d => (configfsSet s (some d.1) (some d.2)).1)
        (emptied config ((storageRead card 2048 1).map ofList)) := by
    rw [SharedDevice.mounted, configfsMount, if_neg (by simp), if_neg (by simp [hconfig])]
  rw [← hmount] at hheader
  exact ⟨counts_mount hlog path, hheader.mounted, hheader.magic, hheader.base⟩

/-- What an operation can do: append an entry, store the superblock or leave the card alone. -/
inductive Effect (S : System) : Op → System → Prop
  | entry {tag msg : CStr} {log : Log} {buf : Store}
      (hcounts : Counts log (S.appended.length + 1))
      (hmagic : readLe buf 0 4 = logfsMagic.toNat)
      (hrequest : request S (.append (some tag) (some msg)) =
        some (logSector S.appended.length, buf)) :
      Effect S (.append (some tag) (some msg))
        { S with
          log := log
          card := (storageWrite S.card (logSector S.appended.length) 1 buf).1
          appended := S.appended ++ [readBytes buf 0 entrySize] }
  | superblock (hrequest : request S .sync = some (2048, S.config.csb.block)) : Effect S .sync
        { S with
          card := (storageWrite S.card 2048 1 S.config.csb.block).1
          synced := some S.config.csb }
  | none {op : Op} {config : Config} (hsync : isSync op = false) (hentry : isEntry op = false)
      (hrequest : request S op = none) (hheader : SameHeader S.config config) :
      Effect S op { S with config := config }

theorem Layout.effect (h : Layout S) (op : Op) : Effect S op (S.after op) := by
  cases op with
  | append tag msg =>
    by_cases hnull : tag = none ∨ msg = none
    · have happ := append_null (s := S.log) hnull
      have hafter : S.after (.append tag msg) = { S with config := S.config } := by
        simp [System.after, request, happ, submit]
      rw [hafter]
      refine .none rfl ?_ (by rw [request, happ]) (.refl _)
      rcases hnull with rfl | rfl
      · rfl
      · cases tag <;> rfl
    · push Not at hnull
      obtain ⟨tag, rfl⟩ := ne_none_iff_exists'.mp hnull.1
      obtain ⟨msg, rfl⟩ := ne_none_iff_exists'.mp hnull.2
      obtain ⟨lba, buf, hreq, rfl, hmagic⟩ := h.counts.request tag msg
      have hrequest : request S (.append (some tag) (some msg)) =
          some (logSector S.appended.length, buf) := hreq
      simp only [System.after, hrequest, submit]
      exact .entry (h.counts.append tag msg) hmagic hrequest
  | sync =>
    have hrequest : request S .sync = some (2048, S.config.csb.block) := by
      rw [request, configfsSync, if_neg (by simp [h.mounted]), h.base]
    simp only [System.after, hrequest, submit]
    exact .superblock hrequest
  | config op => exact .none rfl rfl rfl (perform_header S.config op)

theorem Layout.after (h : Layout S) (op : Op) : Layout (S.after op) := by
  have heffect := h.effect op
  generalize S.after op = S' at heffect
  cases heffect with
  | entry hcounts _ _ => exact ⟨by simpa using hcounts, h.mounted, h.magic, h.base⟩
  | superblock _ => exact ⟨h.counts, h.mounted, h.magic, h.base⟩
  | none _ _ _ hheader =>
    exact ⟨h.counts, hheader.mounted.trans h.mounted, hheader.magic.trans h.magic,
      hheader.base.trans h.base⟩

theorem Layout.run (h : Layout S) (ops : List Op) : Layout (run S ops) := by
  induction ops generalizing S with
  | nil => exact h
  | cons op ops ih => exact ih (h.after op)

theorem run_append (S : System) (pre post : List Op) :
    run S (pre ++ post) = run (run S pre) post := foldl_append ..

theorem Layout.counters (h : Layout S) (ops : List Op) :
    (SharedDevice.run S ops).appended.length = S.appended.length + ops.countP isEntry ∧
      (SharedDevice.run S ops).synced.isSome = (S.synced.isSome || ops.any isSync) ∧
      (SharedDevice.run S ops).card.initialized = S.card.initialized := by
  induction ops generalizing S with
  | nil => simp [SharedDevice.run]
  | cons op ops ih =>
    obtain ⟨h1, h2, h3⟩ := ih (h.after op)
    have heffect := h.effect op
    have hrun : SharedDevice.run S (op :: ops) = SharedDevice.run (S.after op) ops := rfl
    rw [hrun, h1, h2, h3, countP_cons]
    generalize S.after op = S' at heffect
    cases heffect with
    | entry => simp [isEntry, isSync, storageWrite_initialized]; omega
    | superblock => simp [isEntry, isSync, storageWrite_initialized]
    | none hsync hentry => simp [hsync, hentry]

/-! Sectors. -/

theorem logSector_toNat (k : Nat) : (logSector k).toNat = 1024 + k % 65536 := by
  rw [logSector, UInt32.toNat_add, UInt32.toNat_ofNat']
  simp only [UInt32.reduceToNat]
  omega

theorem logSector_lt (k : Nat) : (logSector k).toNat < 2 ^ 23 := by
  rw [logSector_toNat]
  omega

theorem logSector_ne {k n : Nat} (hlt : k < n) (hnear : n < k + 65536) :
    logSector k ≠ logSector n := by
  intro heq
  have hnat := congrArg UInt32.toNat heq
  rw [logSector_toNat, logSector_toNat] at hnat
  omega

theorem logSector_eq_config {k : Nat} : logSector k = 2048 ↔ k % 65536 = 1024 := by
  rw [← UInt32.toNat_inj, logSector_toNat]
  simp only [UInt32.reduceToNat]
  omega

theorem ofBlock_readBytes (b : Store) :
    Superblock.ofBlock (ofList (readBytes b 0 blockSize)) = Superblock.ofBlock b := by
  simp only [Superblock.ofBlock, readLe_readBytes b (by decide : 0 + 4 ≤ blockSize),
    readLe_readBytes b (by decide : 4 + 4 ≤ blockSize),
    readLe_readBytes b (by decide : 8 + 4 ≤ blockSize),
    readLe_readBytes b (by decide : 12 + 4 ≤ blockSize)]

theorem Stored.after (hs : Stored S) (h : Layout S) (hinit : S.card.initialized = true) {op : Op}
    (hsep : Separate S op) : Stored (S.after op) := by
  have heffect := h.effect op
  generalize S.after op = S' at heffect
  cases heffect with
  | @entry _ _ _ buf _ _ hrequest =>
    refine ⟨fun csb hcsb => ?_, fun k e hlive he => ?_⟩
    · have hother := hsep _ _ hrequest (by rw [show S.synced = some csb from hcsb]; rfl)
      rw [storageRead_other hinit (logSector_lt _) (by decide) (Ne.symm hother)]
      exact hs.superblock csb hcsb
    obtain ⟨hlt, hnear⟩ := hlive
    simp only [length_append, length_singleton] at hlt hnear
    rcases Nat.lt_or_eq_of_le (Nat.lt_succ_iff.mp hlt) with hold | rfl
    · rw [getElem?_append_left hold] at he
      rw [storageRead_other hinit (logSector_lt _) (logSector_lt k) (logSector_ne hold (by omega))]
      exact hs.entries k e ⟨hold, by omega⟩ he
    · rw [getElem?_concat_length, some.injEq] at he
      refine ⟨_, storageRead_written hinit (logSector_lt _) buf, ?_⟩
      rw [readBytes_take, ← he]
      rfl
  | superblock hrequest =>
    refine ⟨fun csb hcsb => ?_, fun k e hlive he => ?_⟩
    · refine ⟨_, storageRead_written hinit (by decide) _, ?_⟩
      rw [ofBlock_readBytes, Superblock.ofBlock_block]
      exact some.inj hcsb
    · have hother := hsep _ _ hrequest k hlive
      rw [storageRead_other hinit (by decide) (logSector_lt k) (Ne.symm hother)]
      exact hs.entries k e hlive he
  | none => exact ⟨hs.superblock, hs.entries⟩

theorem Layout.separate_iff (h : Layout S) (op : Op) : Separate S op ↔
      (isEntry op = true → S.synced.isSome = true → S.appended.length % 65536 ≠ 1024) ∧
        (isSync op = true → S.appended.length ≤ 1024) := by
  have heffect := h.effect op
  generalize S.after op = S' at heffect
  cases heffect with
  | entry _ _ hrequest =>
    constructor
    · intro hsep
      exact ⟨fun _ hsynced heq => hsep _ _ hrequest hsynced (logSector_eq_config.mpr heq), nofun⟩
    intro hcond lba buf hreq hsynced
    rw [hrequest] at hreq
    cases hreq
    exact fun heq => hcond.1 rfl hsynced (logSector_eq_config.mp heq)
  | superblock hrequest =>
    constructor
    · intro hsep
      refine ⟨nofun, fun _ => ?_⟩
      by_contra hmany
      -- the last entry that went to sector 2048 is among the last 65536
      have hlive : Live S (1024 + (S.appended.length - 1025) / 65536 * 65536) := by
        constructor <;> omega
      exact hsep _ _ hrequest _ hlive (logSector_eq_config.mpr (by omega)).symm
    · intro hcond lba buf hreq k hlive
      rw [hrequest] at hreq
      cases hreq
      intro heq
      have hk := logSector_eq_config.mp heq.symm
      have hfew := hcond.2 rfl
      have hlt := hlive.1
      omega
  | none hsync hentry hrequest =>
    constructor
    · intro _
      exact ⟨fun he => absurd he (by simp [hentry]), fun he => absurd he (by simp [hsync])⟩
    · intro _ lba buf hreq
      rw [hrequest] at hreq
      cases hreq

/-- The list up to the element that is number `n` to satisfy `p`. -/
theorem exists_split_countP {α : Type*} {p : α → Bool} {l : List α} {n : Nat}
    (h : n < l.countP p) : ∃ pre a post, l = pre ++ a :: post ∧ p a = true ∧ pre.countP p = n := by
  induction l generalizing n with
  | nil => simp at h
  | cons x l ih =>
    cases hx : p x with
    | false =>
      rw [countP_cons_of_neg (by simp [hx])] at h
      obtain ⟨pre, a, post, rfl, ha, hpre⟩ := ih h
      exact ⟨x :: pre, a, post, rfl, ha, by rw [countP_cons_of_neg (by simp [hx]), hpre]⟩
    | true =>
      cases n with
      | zero => exact ⟨[], x, l, rfl, hx, rfl⟩
      | succ n =>
        rw [countP_cons_of_pos hx] at h
        obtain ⟨pre, a, post, rfl, ha, hpre⟩ := ih (Nat.succ_lt_succ_iff.mp h)
        exact ⟨x :: pre, a, post, rfl, ha, by rw [countP_cons_of_pos hx, hpre]⟩

theorem separate_splits (h : Layout S) (happended : S.appended = []) (hsynced : S.synced = none)
    (ops : List Op) :
    (∀ pre op post, ops = pre ++ op :: post → Separate (run S pre) op) ↔
      ops.any isSync = false ∨ ops.countP isEntry ≤ 1024 := by
  have hstep : ∀ pre op, Separate (run S pre) op ↔
      (isEntry op = true → pre.any isSync = true → pre.countP isEntry % 65536 ≠ 1024) ∧
        (isSync op = true → pre.countP isEntry ≤ 1024) := by
    intro pre op
    obtain ⟨hlength, hsome, -⟩ := h.counters pre
    rw [(h.run pre).separate_iff, hlength, hsome]
    simp [happended, hsynced]
  simp only [hstep]
  constructor
  · intro hsplit
    by_contra hboth
    push Not at hboth
    obtain ⟨hany, hmany⟩ := hboth
    obtain ⟨pre, a, post, rfl, ha, hpre⟩ := exists_split_countP hmany
    have hnotSync : isSync a = false := by
      cases a with
      | append tag msg => rfl
      | sync => cases ha
      | config op => rfl
    -- the superblock is stored before the entry or after it
    cases hbefore : pre.any isSync with
    | true => exact (hsplit pre a post rfl).1 ha hbefore (by omega)
    | false =>
      have hafter : post.any isSync = true := by simpa [hbefore, hnotSync] using hany
      obtain ⟨op, hop, hsync⟩ := any_eq_true.mp hafter
      obtain ⟨mid, rest, rfl⟩ := append_of_mem hop
      have hfew := (hsplit (pre ++ a :: mid) op rest (by simp)).2 hsync
      rw [countP_append, countP_cons_of_pos ha] at hfew
      omega
  · rintro hcond pre op post rfl
    rw [any_append, any_cons, countP_append, countP_cons] at hcond
    refine ⟨fun hentry hsync => ?_, fun hsync => ?_⟩
    · rw [hsync, if_pos hentry] at hcond
      simp only [Bool.true_or, Bool.true_eq_false, false_or] at hcond
      omega
    · rw [hsync] at hcond
      simp only [Bool.true_or, Bool.or_true, Bool.true_eq_false, false_or] at hcond
      omega

theorem Stored.run (hs : Stored S) (h : Layout S) (hinit : S.card.initialized = true) :
    ∀ ops, (∀ pre op post, ops = pre ++ op :: post → Separate (run S pre) op) →
      Stored (SharedDevice.run S ops) := by
  intro ops hsep
  induction ops generalizing S with
  | nil => exact hs
  | cons op ops ih =>
    refine ih (hs.after h hinit (hsep [] op ops rfl)) (h.after op) ?_ fun pre op' post heq => ?_
    · have := (h.counters [op]).2.2
      exact this.trans hinit
    · exact hsep (op :: pre) op' post (by rw [heq]; rfl)

theorem Stored.nothing (hs : Stored S) (hinit : S.card.initialized = false) :
    S.synced = none ∧ S.appended = [] := by
  have hread : ∀ lba, storageRead S.card lba 1 = none := fun lba => by simp [storageRead, hinit]
  constructor
  · rw [eq_none_iff_forall_ne_some]
    intro csb hcsb
    obtain ⟨b, hb, -⟩ := hs.superblock csb hcsb
    rw [hread] at hb
    cases hb
  · by_contra hne
    have hpos : 0 < S.appended.length := length_pos_iff.mpr hne
    obtain ⟨e, he⟩ : ∃ e, S.appended[S.appended.length - 1]? = some e :=
      ⟨_, getElem?_eq_getElem (by omega)⟩
    obtain ⟨b, hb, -⟩ := hs.entries _ e ⟨by omega, by omega⟩ he
    rw [hread] at hb
    cases hb

/-- The log and the superblock stay apart exactly when the superblock is never stored or at most
1024 entries are appended, on a card that was set up. -/
theorem sectors_apart_iff (log : Log) (hlog : log.mounted = false) (config : Config)
    (hconfig : config.mounted = false) (card : Card) (path : CStr) (ops : List Op) :
    KeptApart (mounted log config card path) ops ↔
      (ops.any isSync = false ∨ ops.countP isEntry ≤ 1024) ∧
        (card.initialized = true ∨ ops.any isSync = false ∧ ops.countP isEntry = 0) := by
  have h := layout_mounted hlog hconfig card path
  have hstart : Stored (mounted log config card path) :=
    ⟨nofun, fun k e hlive => absurd hlive.1 (Nat.not_lt_zero k)⟩
  rw [KeptApart, separate_splits h rfl rfl]
  refine and_congr_right fun hcond => ⟨fun hstored => ?_, fun hcard pre post heq => ?_⟩
  · obtain ⟨hlength, hsome, hsame⟩ := h.counters ops
    cases hinit : card.initialized with
    | true => exact .inl rfl
    | false =>
      obtain ⟨hnone, hempty⟩ := (hstored ops [] (by simp)).nothing (hsame.trans hinit)
      rw [hnone] at hsome
      rw [hempty] at hlength
      refine .inr ⟨?_, ?_⟩
      · simpa [mounted] using hsome.symm
      · simpa [mounted] using hlength.symm
  · have hsep : ∀ pre' op post', pre = pre' ++ op :: post' →
        Separate (run (mounted log config card path) pre') op := by
      rintro pre' op post' rfl
      exact (separate_splits h rfl rfl ops).mpr hcond pre' op (post' ++ post) (by rw [heq]; simp)
    rcases hcard with hinit | ⟨hsync, hentry⟩
    · exact hstart.run h hinit pre hsep
    obtain ⟨hlength, hsome, -⟩ := h.counters pre
    have hnoSync : pre.any isSync = false := by
      rw [heq, any_append, Bool.or_eq_false_iff] at hsync
      exact hsync.1
    have hnoEntry : pre.countP isEntry = 0 := by
      rw [heq, countP_append] at hentry
      omega
    refine ⟨fun csb hcsb => ?_, fun k e hlive => ?_⟩
    · rw [hcsb, hnoSync] at hsome
      cases hsome
    · have hlt := hlive.1
      rw [hlength, hnoEntry] at hlt
      exact absurd hlt (Nat.not_lt_zero k)

def blankCard : Card := ⟨true, true, fun _ => 0⟩

def boot : Op := .append (some (cstr "kernel")) (some (cstr "boot"))

/-- Entries on both sides of two syncs. -/
theorem short_log_apart : KeptApart (mounted LogFs.unmounted ConfigFs.unmounted blankCard (cstr "/"))
    [boot, .sync, boot, .config (.delete (cstr "ssh.port")), .sync, boot] :=
  (sectors_apart_iff LogFs.unmounted rfl ConfigFs.unmounted rfl blankCard (cstr "/") _).mpr
    ⟨.inr (by decide), .inl rfl⟩

/-- The 1025th entry replaces the superblock: `configfs_mount` then reads the log's magic. -/
theorem superblock_overwritten :
    ∃ ops, ¬KeptApart (mounted LogFs.unmounted ConfigFs.unmounted blankCard (cstr "/")) ops ∧
      (run (mounted LogFs.unmounted ConfigFs.unmounted blankCard (cstr "/")) ops).synced.isSome =
        true ∧
      ∃ b, storageRead (run (mounted LogFs.unmounted ConfigFs.unmounted blankCard (cstr "/"))
          ops).card 2048 1 = some b ∧
        (Superblock.ofBlock (ofList b)).magic = logfsMagic := by
  have h : Layout (mounted LogFs.unmounted ConfigFs.unmounted blankCard (cstr "/")) :=
    layout_mounted rfl rfl blankCard (cstr "/")
  generalize hS : mounted LogFs.unmounted ConfigFs.unmounted blankCard (cstr "/") = S at h ⊢
  have hS0 : S.appended = [] ∧ S.synced = none ∧ S.card = blankCard := by
    subst hS
    exact ⟨rfl, rfl, rfl⟩
  -- 1024 entries are never computed with
  obtain ⟨es, hes⟩ : ∃ es : List Op, es.countP isEntry = 1024 :=
    ⟨replicate 1024 boot, by rw [countP_replicate, if_pos (by rfl)]⟩
  have hcount : (Op.sync :: es).countP isEntry = 1024 := by
    rw [countP_cons_of_neg (by simp [isEntry]), hes]
  refine ⟨(.sync :: es) ++ [boot], fun happart => ?_, ?_, ?_⟩
  · rcases (separate_splits h hS0.1 hS0.2.1 _).mp happart.1 with hnone | hfew
    · cases hnone
    · rw [countP_append, hcount, countP_cons_of_pos (by rfl)] at hfew
      omega
  · rw [(h.counters _).2.1, any_append, any_cons]
    simp [isSync]
  · obtain ⟨hlength, -, hinit⟩ := h.counters (.sync :: es)
    rw [hS0.1, hcount] at hlength
    rw [hS0.2.2] at hinit
    have heffect := (h.run (.sync :: es)).effect boot
    rw [run_append, show ∀ T, run T [boot] = T.after boot from fun T => rfl]
    generalize run S (.sync :: es) = T at hlength hinit heffect
    generalize T.after boot = T' at heffect
    cases heffect with
    | @entry _ _ _ buf _ hmagic _ =>
      have hsector : logSector T.appended.length = 2048 :=
        logSector_eq_config.mpr (by rw [hlength]; rfl)
      refine ⟨_, by rw [hsector]; exact storageRead_written hinit (by decide) buf, ?_⟩
      rw [ofBlock_readBytes, Superblock.ofBlock, hmagic]
      rfl
    | none _ hentry => cases hentry

end AegisOS.SharedDevice
