import AegisOS.Lib.CString
import AegisOS.Lib.GuardedRun
import AegisOS.Lib.LinearProbing

/-! The configuration store (`fs/configfs.c`): a hash table of keys and values in memory, and the
superblock that `configfs_sync` writes. -/
namespace AegisOS.ConfigFs
open ByteStore CString GuardedRun LinearProbing Function List

def configfsMagic : UInt32 := 0x434F4E46
def configfsMaxEntries : Nat := 512

structure ConfigEntry where
  key : CArray 64
  value : CArray 256
  valid : Bool
  hash : UInt32

structure Superblock where
  magic : UInt32
  version : UInt32
  entryCount : UInt32
  baseLba : UInt32

structure Config where
  entries : Nat → ConfigEntry
  csb : Superblock
  mounted : Bool

/-- The store before `configfs_mount`. -/
def unmounted : Config where
  entries := fun _ => ⟨strcopy (cstr ""), strcopy (cstr ""), false, 0⟩
  csb := ⟨0, 0, 0, 0⟩
  mounted := false

def hashKey (key : CStr) : UInt32 :=
  key.bytes.foldl (fun h c => ((h <<< 5) + h) ^^^ c.toUInt32) 5381

def startOf (key : CStr) : Nat := (hashKey key).toNat % configfsMaxEntries

def probeKey (s : Config) (key : CStr) : Probe :=
  probe configfsMaxEntries (startOf key) (fun i => (s.entries i).valid)
    (fun i => (s.entries i).hash == hashKey key && decide ((s.entries i).key.str = key))
    configfsMaxEntries 0

/-- NULL pointers are `none`. -/
def configfsSet (s : Config) (key value : Option CStr) : Config × Int :=
  match key, value with
  | some key, some value =>
    if s.mounted = false then (s, -1)
    else
      match probeKey s key with
      | .vacant idx =>
        ({ s with
            entries := update s.entries idx
              ⟨strcopy key, strcopy value, true, hashKey key⟩
            csb := { s.csb with entryCount := s.csb.entryCount + 1 } }, 0)
      | .found idx =>
        ({ s with
            entries := update s.entries idx
              { s.entries idx with value := strcopy value } }, 0)
      | .exhausted => (s, -1)
  | _, _ => (s, -1)

/-- The value, or `none` for the code's `-1`; the buffer is its length or NULL. -/
def configfsGet (s : Config) (key : Option CStr) (buffer : Option Nat) : Option CStr :=
  match key, buffer with
  | some key, some maxLen =>
    if s.mounted = false ∨ maxLen = 0 then none
    else
      match probeKey s key with
      | .found idx => some ((s.entries idx).value.str.truncate (maxLen - 1))
      | _ => none
  | _, _ => none

def configfsDelete (s : Config) (key : Option CStr) : Config × Int :=
  match key with
  | some key =>
    if s.mounted = false then (s, -1)
    else
      match probeKey s key with
      | .found idx =>
        ({ s with
            entries := update s.entries idx { s.entries idx with valid := false }
            csb := { s.csb with entryCount := s.csb.entryCount - 1 } }, 0)
      | _ => (s, -1)
  | none => (s, -1)

def defaults : List (CStr × CStr) :=
  [(cstr "hostname", cstr "aegisbox"), (cstr "domain", cstr "local"),
    (cstr "dns.primary", cstr "1.1.1.1"), (cstr "dns.secondary", cstr "8.8.8.8"),
    (cstr "ntp.server", cstr "pool.ntp.org"), (cstr "log.level", cstr "info"),
    (cstr "firewall.default_policy", cstr "deny"), (cstr "update.channel", cstr "stable"),
    (cstr "ssh.port", cstr "22"), (cstr "dashboard.port", cstr "8080")]

/-- The store before the defaults are set; `block` is what `storage_read` gave, if it did. -/
def emptied (s : Config) (block : Option Store) : Config where
  entries := fun i => { s.entries i with valid := false }
  csb := ⟨configfsMagic, 1,
    match block with
    | some b => if readLe b 0 4 = configfsMagic.toNat then .ofNat (readLe b 8 4) else 0
    | none => 0, 2048⟩
  mounted := true

def configfsMount (s : Config) (path : Option CStr) (block : Option Store) : Config × Int :=
  if path.isNone then (s, -1)
  else if s.mounted then (s, 0)
  else
    (defaults.foldl (fun s d => (configfsSet s (some d.1) (some d.2)).1) (emptied s block), 0)

def Superblock.block (sb : Superblock) : Store :=
  ofList (leBytes 4 sb.magic.toNat ++ (leBytes 4 sb.version.toNat ++
    (leBytes 4 sb.entryCount.toNat ++ leBytes 4 sb.baseLba.toNat)))

def Superblock.ofBlock (b : Store) : Superblock :=
  ⟨.ofNat (readLe b 0 4), .ofNat (readLe b 4 4), .ofNat (readLe b 8 4), .ofNat (readLe b 12 4)⟩

theorem Superblock.ofBlock_block (sb : Superblock) : ofBlock sb.block = sb := by
  obtain ⟨magic, version, entryCount, baseLba⟩ := sb
  have hlt : ∀ v : UInt32, v.toNat < 256 ^ 4 := fun v => v.toNat_lt
  have h0 := readLe_field [] (leBytes 4 version.toNat ++ (leBytes 4 entryCount.toNat ++
    leBytes 4 baseLba.toNat)) (hlt magic)
  have h4 := readLe_field (leBytes 4 magic.toNat) (leBytes 4 entryCount.toNat ++
    leBytes 4 baseLba.toNat) (hlt version)
  have h8 := readLe_field (leBytes 4 magic.toNat ++ leBytes 4 version.toNat)
    (leBytes 4 baseLba.toNat) (hlt entryCount)
  have h12 := readLe_field (leBytes 4 magic.toNat ++ (leBytes 4 version.toNat ++
    leBytes 4 entryCount.toNat)) [] (hlt baseLba)
  simp only [nil_append, append_nil, append_assoc, length_append,
    length_nil, length_leBytes] at h0 h4 h8 h12
  simp only [ofBlock, block, h0, h4, h8, h12, UInt32.ofNat_toNat]

/-- The block handed to `storage_write` is the first result. -/
def configfsSync (s : Config) : Option (UInt32 × Store) × Int :=
  if s.mounted = false then (none, -1) else (some (s.csb.baseLba, s.csb.block), 0)

/-! Runs. -/

inductive Op
  | set (key value : CStr)
  | get (key : CStr)
  | delete (key : CStr)

def perform (s : Config) : Op → Config × Int
  | .set key value => configfsSet s (some key) (some value)
  | .get _ => (s, 0)
  | .delete key => configfsDelete s (some key)

structure Session where
  fs : Config
  log : List (Op × Int)

def Session.after (S : Session) (op : Op) : Session :=
  ⟨(perform S.fs op).1, S.log ++ [(op, (perform S.fs op).2)]⟩

def step (S : Session) (op : Op) : Option Session := some (S.after op)

/-- What `configfs_mount` leaves, its own sets included in the log. -/
def Session.start (s : Config) (block : Option Store) : Session :=
  defaults.foldl (fun S d => S.after (.set d.1 d.2)) ⟨emptied s block, []⟩

def noted (k : CStr) (cur : Option CStr) : Op × Int → Option CStr
  | (.set key value, rc) => if key = k ∧ rc = 0 then some value else cur
  | (.get _, _) => cur
  | (.delete key, _) => if key = k then none else cur

/-- The value of the last successful set of a key that no delete of it followed. -/
def current (k : CStr) (log : List (Op × Int)) : Option CStr := log.foldl (noted k) none

def KeyOk (key : CStr) : Prop := 1 ≤ key.bytes.length ∧ key.bytes.length ≤ 63

def Legal : Op → Prop
  | .set key value => KeyOk key ∧ value.bytes.length ≤ 255
  | .get key => KeyOk key
  | .delete key => KeyOk key

def keyAt (s : Config) (i : Nat) : Option CStr :=
  if (s.entries i).valid then some (s.entries i).key.str else none

def Careful (s : Config) : Op → Prop
  | .delete key => ∀ idx < configfsMaxEntries, keyAt s idx = some key →
      OffPath configfsMaxEntries startOf (keyAt s) idx
  | _ => True

structure MapLike (S : Session) : Prop where
  present : ∀ k v maxLen, current k S.log = some v → v.bytes.length < maxLen →
    configfsGet S.fs (some k) (some maxLen) = some v
  absent : ∀ k buffer, current k S.log = none → configfsGet S.fs (some k) buffer = none
  unique : ∀ i < configfsMaxEntries, ∀ j < configfsMaxEntries, (S.fs.entries i).valid = true →
    (S.fs.entries j).valid = true → (S.fs.entries i).key.str = (S.fs.entries j).key.str → i = j

/-! The configuration store as a map, over runs that delete no key from another key's path. -/
open Option

def Hashed (s : Config) : Prop :=
  ∀ i, (s.entries i).valid = true → (s.entries i).hash = hashKey (s.entries i).key.str

variable {s : Config} {k key value : CStr} {idx : Nat}

theorem keyAt_eq_some {i : Nat} :
    keyAt s i = some k ↔ (s.entries i).valid = true ∧ (s.entries i).key.str = k := by
  rw [keyAt]
  cases (s.entries i).valid <;> simp

theorem keyAt_isSome (s : Config) (i : Nat) : (keyAt s i).isSome = (s.entries i).valid := by
  rw [keyAt]
  cases (s.entries i).valid <;> simp

theorem Hashed.probeKey (h : Hashed s) (key : CStr) :
    probeKey s key = search configfsMaxEntries startOf (keyAt s) key := by
  rw [ConfigFs.probeKey, search]
  simp only [keyAt_isSome]
  refine probe_congr (fun i hi => ?_) _ _
  have hkey : keyAt s i = some (s.entries i).key.str := keyAt_eq_some.mpr ⟨hi, rfl⟩
  rw [hkey, h i hi]
  by_cases heq : (s.entries i).key.str = key <;> simp [heq]

structure Tracks (S : Session) : Prop where
  mounted : S.fs.mounted = true
  hashed : Hashed S.fs
  probed : Probed configfsMaxEntries startOf (keyAt S.fs)
  values : ∀ k v, current k S.log = some v ↔
    ∃ i < configfsMaxEntries, keyAt S.fs i = some k ∧ (S.fs.entries i).value.str = v

theorem current_append (k : CStr) (log : List (Op × Int)) (entry : Op × Int) :
    current k (log ++ [entry]) = noted k (current k log) entry := by
  rw [current, foldl_append, ← current, foldl_cons, foldl_nil]

theorem strcopy_key (h : KeyOk key) : (strcopy key : CArray 64).str = key := by
  ext1
  exact take_of_length_le (by have := h.2; omega)

theorem strcopy_value (h : value.bytes.length ≤ 255) :
    (strcopy value : CArray 256).str = value := by
  ext1
  exact take_of_length_le h

variable {S : Session}

theorem Tracks.current_none (h : Tracks S)
    (hres : ∀ idx, probeKey S.fs k ≠ .found idx) : current k S.log = none := by
  rw [h.hashed.probeKey] at hres
  cases hcur : current k S.log with
  | none => rfl
  | some v =>
    obtain ⟨i, hi, hkey, -⟩ := (h.values k v).mp hcur
    exact absurd hkey (h.probed.absent hres i hi)

theorem Tracks.current_found (h : Tracks S) (hres : probeKey S.fs k = .found idx) :
    idx < configfsMaxEntries ∧ keyAt S.fs idx = some k ∧
      current k S.log = some (S.fs.entries idx).value.str := by
  rw [h.hashed.probeKey] at hres
  obtain ⟨hidx, hkey⟩ := search_found_key hres
  exact ⟨hidx, hkey, (h.values k _).mpr ⟨idx, hidx, hkey, rfl⟩⟩

theorem Tracks.mapLike (h : Tracks S) : MapLike S := by
  refine ⟨fun k v maxLen hcur hlen => ?_, fun k buffer hcur => ?_, fun i hi j hj hvi hvj heq => ?_⟩
  · obtain ⟨i, hi, hkey, hvalue⟩ := (h.values k v).mp hcur
    have hfound := h.probed.search_found hi hkey
    rw [← h.hashed.probeKey] at hfound
    have hok : ¬(S.fs.mounted = false ∨ maxLen = 0) := by
      rw [h.mounted]
      rintro (hbad | hbad)
      · cases hbad
      · omega
    simp only [configfsGet, if_neg hok, hfound, hvalue, some.injEq]
    ext1
    exact take_of_length_le (by omega)
  · cases buffer with
    | none => rfl
    | some maxLen =>
      simp only [configfsGet]
      split
      · rfl
      cases hres : probeKey S.fs k with
      | vacant | exhausted => rfl
      | found idx =>
        rw [(h.current_found hres).2.2] at hcur
        cases hcur
  · exact h.probed.unique i hi j hj _ (keyAt_eq_some.mpr ⟨hvi, rfl⟩)
      (keyAt_eq_some.mpr ⟨hvj, heq.symm⟩)

/-! One call. -/

theorem Tracks.get (h : Tracks S) (key : CStr) : Tracks (S.after (.get key)) := by
  refine ⟨h.mounted, h.hashed, h.probed, fun k v => ?_⟩
  simp only [Session.after, current_append]
  exact h.values k v

def written (s : Config) (idx : Nat) (e : ConfigEntry) (csb : Superblock) : Config :=
  { s with entries := update s.entries idx e, csb := csb }

theorem keyAt_written (s : Config) (idx : Nat) (e : ConfigEntry) (csb : Superblock) :
    keyAt (written s idx e csb) =
      update (keyAt s) idx (if e.valid then some e.key.str else none) := by
  funext i
  by_cases hi : i = idx
  · rw [hi, keyAt, written]
    simp only [update_self]
  · rw [update_of_ne hi, keyAt, written, keyAt]
    simp only [update_of_ne hi]

theorem Hashed.written (h : Hashed s) (idx : Nat) {e : ConfigEntry} (csb : Superblock)
    (he : e.valid = true → e.hash = hashKey e.key.str) : Hashed (written s idx e csb) := by
  intro i hi
  by_cases heq : i = idx
  · simp only [ConfigFs.written, heq, update_self] at hi ⊢
    exact he hi
  · simp only [ConfigFs.written, update_of_ne heq] at hi ⊢
    exact h i hi

section
variable (h : Tracks S)
include h

/-- What a key's value is once the slot of `key` has been written. -/
theorem Tracks.values_written (hidx : idx < configfsMaxEntries) (e : ConfigEntry)
    (csb : Superblock) (hslot : ∀ i < configfsMaxEntries, keyAt S.fs i = some key → i = idx)
    (hold : ∀ k, keyAt S.fs idx = some k → k = key) (hnew : e.key.str = key) (k v : CStr) :
    (∃ i < configfsMaxEntries, keyAt (written S.fs idx e csb) i = some k ∧
      ((written S.fs idx e csb).entries i).value.str = v) ↔
      if k = key then e.valid = true ∧ e.value.str = v else current k S.log = some v := by
  have hself : keyAt (written S.fs idx e csb) idx = some k ↔ e.valid = true ∧ key = k := by
    rw [keyAt_eq_some, ← hnew]
    simp only [written, update_self]
  have hother : ∀ i, i ≠ idx → (keyAt (written S.fs idx e csb) i = keyAt S.fs i ∧
      (written S.fs idx e csb).entries i = S.fs.entries i) := by
    intro i hi
    rw [keyAt_written]
    exact ⟨update_of_ne hi _ _, update_of_ne hi _ _⟩
  have hentry : (written S.fs idx e csb).entries idx = e := by simp only [written, update_self]
  by_cases hk : k = key
  · rw [if_pos hk]
    constructor
    · rintro ⟨i, hi, hkey, hvalue⟩
      by_cases heq : i = idx
      · rw [heq] at hkey hvalue
        rw [hentry] at hvalue
        exact ⟨(hself.mp hkey).1, hvalue⟩
      · rw [(hother i heq).1, hk] at hkey
        exact absurd (hslot i hi hkey) heq
    · rintro ⟨hvalid, hvalue⟩
      exact ⟨idx, hidx, hself.mpr ⟨hvalid, hk.symm⟩, by rw [hentry]; exact hvalue⟩
  · rw [if_neg hk, h.values]
    constructor <;> rintro ⟨i, hi, hkey, hvalue⟩
    · have hne : i ≠ idx := by
        rintro rfl
        exact hk (hself.mp hkey).2.symm
      rw [(hother i hne).1] at hkey
      rw [(hother i hne).2] at hvalue
      exact ⟨i, hi, hkey, hvalue⟩
    · have hne : i ≠ idx := by
        rintro rfl
        exact hk (hold k hkey)
      exact ⟨i, hi, by rw [(hother i hne).1]; exact hkey, by rw [(hother i hne).2]; exact hvalue⟩

theorem Tracks.insert (hkey : KeyOk key) (hvalue : value.bytes.length ≤ 255)
    (hres : probeKey S.fs key = .vacant idx) : Tracks (S.after (.set key value)) := by
  have hsearch := hres
  rw [h.hashed.probeKey] at hsearch
  obtain ⟨hidx, hempty, -⟩ := search_vacant_slot hsearch
  have habsent := h.probed.absent (k := key) fun j hj => by rw [hsearch] at hj; cases hj
  have hafter : S.after (.set key value) = ⟨written S.fs idx
      ⟨strcopy key, strcopy value, true, hashKey key⟩
      { S.fs.csb with entryCount := S.fs.csb.entryCount + 1 }, S.log ++ [(.set key value, 0)]⟩ := by
    simp only [Session.after, perform, configfsSet, h.mounted, hres, Bool.true_eq_false, if_false,
      written]
  rw [hafter]
  refine ⟨h.mounted, h.hashed.written idx _ fun _ => by rw [strcopy_key hkey], ?_, fun k v => ?_⟩
  · rw [keyAt_written, strcopy_key hkey]
    exact h.probed.insert hsearch
  rw [h.values_written hidx _ _ (fun i hi hi' => absurd hi' (habsent i hi))
    (fun k hk => by rw [hempty] at hk; cases hk) (strcopy_key hkey), current_append, noted,
    strcopy_value hvalue]
  by_cases hk : k = key
  · simp [hk]
  · simp [hk, Ne.symm hk]

theorem Tracks.update (hvalue : value.bytes.length ≤ 255) (hres : probeKey S.fs key = .found idx) :
    Tracks (S.after (.set key value)) := by
  obtain ⟨hidx, hkey, -⟩ := h.current_found hres
  obtain ⟨hvalid, hname⟩ := keyAt_eq_some.mp hkey
  have hafter : S.after (.set key value) = ⟨written S.fs idx
      { S.fs.entries idx with value := strcopy value } S.fs.csb,
      S.log ++ [(.set key value, 0)]⟩ := by
    simp only [Session.after, perform, configfsSet, h.mounted, hres, Bool.true_eq_false, if_false,
      written]
  rw [hafter]
  refine ⟨h.mounted, h.hashed.written idx _ (h.hashed idx), ?_, fun k v => ?_⟩
  · rw [keyAt_written, if_pos hvalid, hname, ← hkey, update_eq_self]
    exact h.probed
  rw [h.values_written hidx { S.fs.entries idx with value := strcopy value } _
    (fun i hi hi' => h.probed.unique i hi idx hidx key hi' hkey)
    (fun k hk => by rw [hkey] at hk; exact (some.inj hk).symm) hname, current_append,
    noted, strcopy_value hvalue]
  by_cases hk : k = key
  · simp [hk, hvalid]
  · simp [hk, Ne.symm hk]

theorem Tracks.set (hlegal : Legal (.set key value)) : Tracks (S.after (.set key value)) := by
  cases hres : probeKey S.fs key with
  | vacant idx => exact h.insert hlegal.1 hlegal.2 hres
  | found idx => exact h.update hlegal.2 hres
  | exhausted =>
    have hafter : S.after (.set key value) = ⟨S.fs, S.log ++ [(.set key value, -1)]⟩ := by
      simp only [Session.after, perform, configfsSet, h.mounted, hres, Bool.true_eq_false, if_false]
    rw [hafter]
    refine ⟨h.mounted, h.hashed, h.probed, fun k v => ?_⟩
    rw [current_append, noted, if_neg (by simp)]
    exact h.values k v

theorem Tracks.delete (hcareful : Careful S.fs (.delete key)) : Tracks (S.after (.delete key)) := by
  by_cases hfound : ∃ idx, probeKey S.fs key = .found idx
  · obtain ⟨idx, hres⟩ := hfound
    obtain ⟨hidx, hkey, -⟩ := h.current_found hres
    obtain ⟨-, hname⟩ := keyAt_eq_some.mp hkey
    have hafter : S.after (.delete key) = ⟨written S.fs idx { S.fs.entries idx with valid := false }
        { S.fs.csb with entryCount := S.fs.csb.entryCount - 1 },
        S.log ++ [(.delete key, 0)]⟩ := by
      simp only [Session.after, perform, configfsDelete, h.mounted, hres, Bool.true_eq_false,
        if_false, written]
    rw [hafter]
    refine ⟨h.mounted, h.hashed.written idx _ nofun, ?_, fun k v => ?_⟩
    · rw [keyAt_written]
      exact h.probed.remove (hcareful idx hidx hkey)
    rw [h.values_written hidx { S.fs.entries idx with valid := false } _
      (fun i hi hi' => h.probed.unique i hi idx hidx key hi' hkey)
      (fun k hk => by rw [hkey] at hk; exact (some.inj hk).symm) hname, current_append,
      noted]
    by_cases hk : k = key
    · simp [hk]
    · simp [hk, Ne.symm hk]
  · have hnone := h.current_none fun idx hidx => hfound ⟨idx, hidx⟩
    have hafter : S.after (.delete key) = ⟨S.fs, S.log ++ [(.delete key, -1)]⟩ := by
      simp only [Session.after, perform, configfsDelete, h.mounted, Bool.true_eq_false, if_false]
      cases hres : probeKey S.fs key with
      | vacant | exhausted => rfl
      | found idx => exact absurd ⟨idx, hres⟩ hfound
    rw [hafter]
    refine ⟨h.mounted, h.hashed, h.probed, fun k v => ?_⟩
    rw [current_append, noted, ← h.values k v]
    by_cases hk : key = k
    · rw [if_pos hk, ← hk, hnone]
    · rw [if_neg hk]

end

/-! Runs. -/

theorem tracks_emptied (s : Config) (block : Option Store) : Tracks ⟨emptied s block, []⟩ := by
  have hempty : ∀ i, keyAt (emptied s block) i = none := fun i => rfl
  refine ⟨rfl, nofun, ⟨fun idx _ k hk => ?_, fun i _ j _ k hk => ?_⟩, fun k v => ?_⟩
  · cases hk
  · rw [hempty] at hk
    cases hk
  · simp [current, hempty]

theorem tracks_defaults {ds : List (CStr × CStr)} (hds : ∀ d ∈ ds, Legal (.set d.1 d.2))
    (h : Tracks S) : Tracks (ds.foldl (fun S d => S.after (.set d.1 d.2)) S) := by
  induction ds generalizing S with
  | nil => exact h
  | cons d ds ih =>
    exact ih (fun d' hd' => hds d' (mem_cons_of_mem d hd')) (h.set (hds d mem_cons_self))

/-- The session starts from what `configfs_mount` leaves. -/
theorem start_fs (hfresh : s.mounted = false) (path : CStr) (block : Option Store) :
    (Session.start s block).fs = (configfsMount s (some path) block).1 := by
  have hfold : ∀ (ds : List (CStr × CStr)) (S : Session),
      (ds.foldl (fun S d => S.after (.set d.1 d.2)) S).fs =
        ds.foldl (fun s d => (configfsSet s (some d.1) (some d.2)).1) S.fs := by
    intro ds
    induction ds with
    | nil => exact fun S => rfl
    | cons d ds ih => exact fun S => ih (S.after (.set d.1 d.2))
  rw [Session.start, hfold, configfsMount]
  simp [hfresh]

instance (key : CStr) : Decidable (KeyOk key) := inferInstanceAs (Decidable (_ ∧ _))

instance (op : Op) : Decidable (Legal op) :=
  match op with
  | .set _ _ => inferInstanceAs (Decidable (_ ∧ _))
  | .get key => inferInstanceAs (Decidable (KeyOk key))
  | .delete key => inferInstanceAs (Decidable (KeyOk key))

instance (s : Config) (op : Op) : Decidable (Careful s op) :=
  match op with
  | .set _ _ => isTrue trivial
  | .get _ => isTrue trivial
  | .delete _ => inferInstanceAs (Decidable (∀ idx < configfsMaxEntries, _))

/-- The map law, from the state that `configfs_mount` leaves. -/
theorem config_map_kept (s : Config) (hfresh : s.mounted = false) (path : CStr)
    (block : Option Store) (ops : List Op) (S : Session)
    (hrun : Run step (fun S op => Legal op ∧ Careful S.fs op) (.start s block) ops S) :
    (Session.start s block).fs = (configfsMount s (some path) block).1 ∧ MapLike S := by
  have hstart : Tracks (.start s block) :=
    tracks_defaults (by decide +kernel) (tracks_emptied s block)
  have htracks : Tracks S := by
    refine hrun.invariant (I := Tracks) (fun S op S' h hok hstep => ?_) hstart
    rw [step, some.injEq] at hstep
    subst hstep
    cases op with
    | set key value => exact h.set hok.1
    | get key => exact h.get key
    | delete key => exact h.delete hok.2
  exact ⟨start_fs hfresh path block, htracks.mapLike⟩

/-- The keys `aa` and `qq` start at one slot: the later one may be deleted. -/
theorem later_key_deleted : ∃ S, current (cstr "aa") S.log = some (cstr "1") ∧
    current (cstr "qq") S.log = none ∧ MapLike S := by
  obtain ⟨S, hrun, haa, hqq⟩ : ∃ S, Run step (fun S op => Legal op ∧ Careful S.fs op)
      (.start unmounted none)
      [.set (cstr "aa") (cstr "1"), .set (cstr "qq") (cstr "2"), .delete (cstr "qq"),
        .get (cstr "aa")] S ∧ current (cstr "aa") S.log = some (cstr "1") ∧
      current (cstr "qq") S.log = none := Run.exists_of_execute (by decide +kernel)
  exact ⟨S, haa, hqq, (config_map_kept unmounted rfl (cstr "/etc") none _ S hrun).2⟩

/-- Once the earlier one is deleted the later one is lost, and a new set of it makes a second
entry. -/
theorem later_key_lost : ∃ S S', Run step (fun _ op => Legal op) (.start unmounted none)
      [.set (cstr "aa") (cstr "1"), .set (cstr "qq") (cstr "2"), .delete (cstr "aa")] S ∧
    current (cstr "qq") S.log = some (cstr "2") ∧
    configfsGet S.fs (some (cstr "qq")) (some 256) = none ∧
    Run step (fun _ op => Legal op) S [.set (cstr "qq") (cstr "3")] S' ∧
    keyAt S'.fs 37 = some (cstr "qq") ∧ keyAt S'.fs 38 = some (cstr "qq") := by
  simp only [exists_and_left]
  refine Run.exists_of_execute_imp (P := fun S => current (cstr "qq") S.log = some (cstr "2") ∧
    configfsGet S.fs (some (cstr "qq")) (some 256) = none ∧
    (execute step (fun _ op => Legal op) S [.set (cstr "qq") (cstr "3")]).any (fun S' =>
      decide (keyAt S'.fs 37 = some (cstr "qq") ∧ keyAt S'.fs 38 = some (cstr "qq"))) = true)
    (fun S _ hend => ?_) (by decide +kernel)
  obtain ⟨hcur, hget, hagain⟩ := hend
  exact ⟨hcur, hget, Run.exists_of_execute hagain⟩

end AegisOS.ConfigFs
