import AegisOS.Lib.CString
import AegisOS.Errno
import AegisOS.Lib.KeyedList

/-! The userland feature catalogue and the process descriptors
(`kernel/core/userland.c`), as far as native processes use them. -/
namespace AegisOS.Userland
open CString

def userlandProcessMax : Nat := 8
def userlandFeatureMax : Nat := 24
def flagRequired : UInt32 := 1
def flagKernelBacked : UInt32 := 2
def flagProcess : UInt32 := 4
def flagControlPlane : UInt32 := 8

inductive FeatureState
  | empty | registered | bound | handoffReady | nativeRunning | failed
  deriving DecidableEq

structure Feature where
  id : UInt32
  name : CArray 32
  serviceName : CArray 32
  imagePath : CArray 64
  serviceId : UInt32
  state : FeatureState
  flags : UInt32
  livePid : UInt32

/-- The states native processes go through; `prepared` stands for those of the
boot-time proofs. -/
inductive DescriptorState
  | prepared | nativeScheduled | nativeRunning | firstExited

structure Region where
  base : Nat
  size : Nat

structure Descriptor where
  id : UInt32
  featureId : UInt32
  serviceId : UInt32
  name : CArray 32
  imagePath : CArray 64
  state : DescriptorState
  entry : Nat
  text : Region
  stack : Region

structure Catalogue where
  features : List Feature
  processes : List Descriptor

def named (name : CStr) (f : Feature) : Bool := f.state ≠ .empty && f.name.str = name

/-- The index `userland_find_feature` stops at. -/
def findFeature (u : Catalogue) (name : CStr) : Option Nat := u.features.findIdx? (named name)

def findFeatureByPath (u : Catalogue) (path : CStr) : Option Feature :=
  u.features.find? fun f => f.state ≠ .empty && f.imagePath.str = path

def Catalogue.modify (u : Catalogue) (k : Nat) (f : Feature → Feature) : Catalogue :=
  { u with features := u.features.modify k f }

/-- The memory of a spawned image, as `sys_spawn` passes it on. -/
structure Image where
  entry : Nat
  textBase : Nat
  textSize : Nat
  stackBase : Nat
  stackSize : Nat

def Image.complete (m : Image) : Bool :=
  m.entry ≠ 0 && m.textBase ≠ 0 && m.textSize ≠ 0 && m.stackBase ≠ 0 && m.stackSize ≠ 0

/-- The live pid is recorded before a descriptor is looked for, and stays recorded when
none is left. -/
def noteNativeProcessSpawn (u : Catalogue) (name path : CStr) (pid : UInt32) (m : Image) :
    Catalogue × Int :=
  if pid = 0 ∨ m.complete = false then (u, aegisEinval)
  else
    match findFeature u name with
    | none => (u, aegisEnoent)
    | some k =>
      match u.features[k]? with
      | none => (u, aegisEnoent)
      | some f =>
        if f.imagePath.str ≠ path then (u, aegisEnoent)
        else if f.livePid ≠ 0 ∧ f.livePid ≠ pid then (u, aegisEbusy)
        else
          let u := u.modify k fun f => { f with livePid := pid }
          match u.processes.findIdx? fun p => p.id == pid || p.name.str = name with
          | some d =>
            ({ u with processes := u.processes.modify d fun p =>
                { p with
                  id := pid, entry := m.entry, text := ⟨m.textBase, m.textSize⟩
                  stack := ⟨m.stackBase, m.stackSize⟩, state := .nativeScheduled } }, aegisOk)
          | none =>
            if userlandProcessMax ≤ u.processes.length then (u, aegisEnomem)
            else
              ({ u with processes := u.processes ++
                  [⟨pid, f.id, f.serviceId, strcopy name, strcopy path, .nativeScheduled, m.entry,
                    ⟨m.textBase, m.textSize⟩, ⟨m.stackBase, m.stackSize⟩⟩] }, aegisOk)

/-- The first descriptor of that pid and name gets the given state. -/
def Catalogue.setProcess (u : Catalogue) (name : CStr) (pid : UInt32) (st : DescriptorState) :
    Catalogue :=
  match u.processes.findIdx? fun p => p.id == pid && p.name.str = name with
  | some d => { u with processes := u.processes.modify d fun p => { p with state := st } }
  | none => u

def markFeatureNativeRunning (u : Catalogue) (name : CStr) (pid : UInt32) : Catalogue × Int :=
  match findFeature u name with
  | none => (u, aegisEnoent)
  | some k =>
    if pid = 0 then (u, aegisEnoent)
    else if (u.features[k]?).all fun f => f.state ≠ .handoffReady && f.state ≠ .nativeRunning then
      (u, aegisEbusy)
    else
      let u := u.modify k fun f => { f with state := .nativeRunning, livePid := pid }
      (u.setProcess name pid .nativeRunning, aegisOk)

def markFeatureNativeExited (u : Catalogue) (name : CStr) (pid : UInt32) : Catalogue × Int :=
  match findFeature u name with
  | none => (u, aegisEnoent)
  | some k =>
    if pid = 0 then (u, aegisEnoent)
    else if (u.features[k]?).all fun f => f.livePid ≠ pid then (u, aegisEperm)
    else
      let u := u.modify k fun f => { f with state := .handoffReady, livePid := 0 }
      (u.setProcess name pid .firstExited, aegisOk)

/-! The catalogue at boot. -/

def registerFeature (u : Catalogue) (name serviceName imagePath : CStr) (flags : UInt32) :
    Catalogue × Int :=
  if name.bytes = [] ∨ serviceName.bytes = [] ∨ imagePath.bytes = [] then (u, aegisEinval)
  else if userlandFeatureMax ≤ u.features.length then (u, aegisEnomem)
  else if (findFeature u name).isSome then (u, aegisEbusy)
  else
    ({ u with features := u.features ++
        [⟨(u.features.length + 1).toUInt32, strcopy name, strcopy serviceName, strcopy imagePath, 0,
          .registered, flags, 0⟩] }, aegisOk)

/-- The name, the service, the image and the flags of each built-in feature. -/
def builtinFeatures : List (CStr × CStr × CStr × UInt32) :=
  [(cstr "aegis-init", cstr "aegisd", cstr "/sbin/aegis-init",
      flagRequired ||| flagProcess ||| flagControlPlane),
    (cstr "service-manager", cstr "aegisd", cstr "/sbin/service-manager",
      flagRequired ||| flagProcess ||| flagControlPlane),
    (cstr "aegisd", cstr "aegisd", cstr "/sbin/aegisd",
      flagRequired ||| flagProcess ||| flagControlPlane),
    (cstr "securityd", cstr "security", cstr "/sbin/securityd",
      flagRequired ||| flagProcess ||| flagControlPlane),
    (cstr "ipcd", cstr "ipc", cstr "/sbin/ipcd", flagRequired ||| flagProcess ||| flagKernelBacked),
    (cstr "capability-broker", cstr "capability", cstr "/sbin/capability-broker",
      flagRequired ||| flagProcess ||| flagKernelBacked),
    (cstr "netd", cstr "network", cstr "/sbin/netd", flagRequired ||| flagProcess),
    (cstr "firewalld", cstr "firewall", cstr "/sbin/firewalld", flagRequired ||| flagProcess),
    (cstr "routerd", cstr "router", cstr "/sbin/routerd",
      flagRequired ||| flagProcess ||| flagControlPlane),
    (cstr "devmgr", cstr "devfs", cstr "/sbin/devmgr", flagRequired ||| flagProcess ||| flagKernelBacked),
    (cstr "procd", cstr "procfs", cstr "/sbin/procd", flagRequired ||| flagProcess ||| flagKernelBacked),
    (cstr "rustmyadmin", cstr "aegisd", cstr "/opt/aegisos/rustmyadmin",
      flagProcess ||| flagControlPlane),
    (cstr "dashboard", cstr "aegisd", cstr "/sbin/dashboard", flagProcess ||| flagControlPlane),
    (cstr "phoenix-feature-bridge", cstr "router", cstr "/sbin/phoenix-feature-bridge",
      flagProcess ||| flagControlPlane)]

def registerFeatures (u : Catalogue) : List (CStr × CStr × CStr × UInt32) → Catalogue × Int
  | [] => (u, aegisOk)
  | (name, serviceName, imagePath, flags) :: rest =>
    let registered := registerFeature u name serviceName imagePath flags
    if registered.2 ≠ aegisOk then registered else registerFeatures registered.1 rest

/-- Each feature takes the id of its service, if that one is prepared. -/
def bindRegisteredFeatures (prepared : CStr → Option UInt32) : List Feature → List Feature × Int
  | [] => ([], aegisOk)
  | f :: rest =>
    if f.state ≠ .registered then (f :: rest, aegisEinval)
    else
      match prepared f.serviceName.str with
      | none => ({ f with state := .failed } :: rest, aegisEnoent)
      | some id =>
        let bound := bindRegisteredFeatures prepared rest
        ({ f with serviceId := id, state := .bound } :: bound.1, bound.2)

/-- The loop of `userland_prepare_handoff`. -/
def prepareFeatures : List Feature → List Feature × Int
  | [] => ([], aegisOk)
  | f :: rest =>
    if f.state ≠ .bound then (f :: rest, aegisEinval)
    else
      let ready := prepareFeatures rest
      ({ f with state := .handoffReady } :: ready.1, ready.2)

/-- The first process descriptor, made for `aegis-init` before there is a process. -/
def firstDescriptor (f : Feature) : Descriptor :=
  ⟨1, f.id, f.serviceId, f.name, f.imagePath, .prepared, 0x400000, ⟨0x400000, 0x200000⟩,
    ⟨0x7fff000000 - 0x10000, 0x10000⟩⟩

/-- From `userland_handoff_init` to `userland_prepare_pre_el0_contract`; `none` is a panic. -/
def prepareUserland (prepared : CStr → Option UInt32) : Option Catalogue :=
  let registered := registerFeatures ⟨[], []⟩ builtinFeatures
  let bound := bindRegisteredFeatures prepared registered.1.features
  let ready := prepareFeatures bound.1
  if registered.2 ≠ aegisOk ∨ bound.2 ≠ aegisOk ∨ ready.2 ≠ aegisOk then none
  else
    (ready.1.find? (named (cstr "aegis-init"))).map fun f => ⟨ready.1, [firstDescriptor f]⟩

/-! The feature catalogue: what the calls made for native processes record in it, and
how it looks at boot. -/
open KeyedList List

/-- Features are told apart by their names, and all are in use. -/
structure Catalogue.WellFormed (u : Catalogue) : Prop where
  names : (u.features.map Feature.name).Nodup
  used : ∀ f ∈ u.features, f.state ≠ .empty

variable {u : Catalogue} {name : CStr} {n : Nat} {f : Feature} {pid : UInt32}

theorem findFeature_spec (h : findFeature u name = some n) :
    ∃ f, u.features[n]? = some f ∧ f.state ≠ .empty ∧ f.name.str = name := by
  obtain ⟨hn, hnamed, -⟩ := findIdx?_eq_some_iff_getElem.mp h
  refine ⟨_, getElem?_eq_getElem hn, ?_⟩
  simpa [named] using hnamed

theorem findFeature_none (h : findFeature u name = none)
    (hf : f ∈ u.features) (hused : f.state ≠ .empty) : f.name.str ≠ name := by
  have hno := findIdx?_eq_none_iff.mp h f hf
  simpa [named, hused] using hno

theorem Catalogue.WellFormed.find (hu : u.WellFormed)
    (hf : f ∈ u.features) : ∃ n, findFeature u f.name.str = some n ∧ u.features[n]? = some f := by
  cases hfind : findFeature u f.name.str with
  | none => exact absurd rfl (findFeature_none hfind hf (hu.used f hf))
  | some n =>
    obtain ⟨g, hg, -, hname⟩ := findFeature_spec hfind
    obtain ⟨m, hm⟩ := mem_iff_getElem?.mp hf
    obtain rfl := index_unique hu.names hg hm (CArray.ext hname)
    exact ⟨n, rfl, hm⟩

/-- The live pid of the feature of that name was set, the other features stayed. -/
structure Recorded (u u' : Catalogue) (name : CStr) (pid : UInt32) : Prop where
  wellFormed : u.WellFormed → u'.WellFormed
  named : u.WellFormed → ∀ f ∈ u'.features, f.name.str = name → f.livePid = pid
  others : ∀ f ∈ u'.features, f.name.str ≠ name →
    ∃ g ∈ u.features, g.name = f.name ∧ g.livePid = f.livePid

theorem recorded_modify {u' : Catalogue}
    {g : Feature → Feature} (hfind : findFeature u name = some n)
    (hfeatures : u'.features = u.features.modify n g) (hname : ∀ f, (g f).name = f.name)
    (hpid : ∀ f, (g f).livePid = pid) (hstate : ∀ f, f.state ≠ .empty → (g f).state ≠ .empty) :
    Recorded u u' name pid := by
  obtain ⟨v, hv, -, hvname⟩ := findFeature_spec hfind
  refine ⟨fun hu => ⟨?_, ?_⟩, fun hu f hf heq => ?_, fun f hf hne => ?_⟩
  · rw [hfeatures, map_modify hname]
    exact hu.names
  · intro f hf
    rw [hfeatures] at hf
    rcases mem_of_modify hf with hf | ⟨w, hw, rfl⟩
    · exact hu.used f hf
    · exact hstate w (hu.used w hw)
  · rw [hfeatures] at hf
    rcases mem_modify hf with ⟨m, hm, hf⟩ | ⟨w, -, rfl⟩
    · exact absurd (index_unique hu.names hf hv (CArray.ext (heq.trans hvname.symm))) hm
    · exact hpid w
  · rw [hfeatures] at hf
    rcases mem_modify hf with ⟨m, -, hf⟩ | ⟨w, hw, rfl⟩
    · exact ⟨f, mem_of_getElem? hf, rfl, rfl⟩
    rw [hv] at hw
    cases hw
    exact absurd ((congrArg CArray.str (hname v)).trans hvname) hne

theorem noteNativeProcessSpawn_recorded {m : Image}
    (hu : u.WellFormed) (hf : f ∈ u.features) (hidle : f.livePid = 0) (hm : m.complete = true)
    (hpid : pid ≠ 0) :
    Recorded u (noteNativeProcessSpawn u f.name.str f.imagePath.str pid m).1 f.name.str pid := by
  obtain ⟨n, hfind, hn⟩ := hu.find hf
  have hmodify : ∀ u' : Catalogue,
      u'.features = u.features.modify n (fun f => { f with livePid := pid }) →
      Recorded u u' f.name.str pid := by
    intro u' hu'
    exact recorded_modify hfind hu' (fun _ => rfl) (fun _ => rfl) (fun _ h => h)
  unfold noteNativeProcessSpawn
  rw [if_neg (by simp [hpid, hm]), hfind]
  dsimp only
  rw [hn]
  dsimp only
  rw [if_neg (not_not.mpr rfl), if_neg (by simp [hidle])]
  split
  · exact hmodify _ rfl
  · split <;> exact hmodify _ rfl

section
variable (u : Catalogue) (name : CStr) (pid : UInt32)

theorem setProcess_features (st : DescriptorState) :
    (u.setProcess name pid st).features = u.features := by
  unfold Catalogue.setProcess
  split <;> rfl

theorem markFeatureNativeRunning_cases : (markFeatureNativeRunning u name pid).1 = u ∨
      Recorded u (markFeatureNativeRunning u name pid).1 name pid := by
  unfold markFeatureNativeRunning
  cases hfind : findFeature u name with
  | none => exact .inl rfl
  | some n =>
    dsimp only
    split
    · exact .inl rfl
    split
    · exact .inl rfl
    · exact .inr (recorded_modify hfind (setProcess_features _ _ _ _) (fun _ => rfl) (fun _ => rfl)
        (fun _ _ => by simp))

theorem markFeatureNativeExited_cases :
    ((markFeatureNativeExited u name pid).2 = aegisOk ∧ pid ≠ 0 ∧
        Recorded u (markFeatureNativeExited u name pid).1 name 0) ∨
      (markFeatureNativeExited u name pid = (u, aegisEnoent) ∧
        (pid = 0 ∨ findFeature u name = none)) ∨
      (markFeatureNativeExited u name pid = (u, aegisEperm) ∧ pid ≠ 0 ∧
        ∃ f ∈ u.features, f.name.str = name ∧ f.livePid ≠ pid) := by
  unfold markFeatureNativeExited
  cases hfind : findFeature u name with
  | none => exact .inr (.inl ⟨rfl, .inr rfl⟩)
  | some n =>
    obtain ⟨f, hf, -, hname⟩ := findFeature_spec hfind
    dsimp only
    split
    next hpid => exact .inr (.inl ⟨rfl, .inl hpid⟩)
    rename_i hpid
    split
    next hother =>
      refine .inr (.inr ⟨rfl, hpid, f, mem_of_getElem? hf, hname, ?_⟩)
      simpa [hf] using hother
    · exact .inl ⟨rfl, hpid, recorded_modify hfind (setProcess_features _ _ _ _) (fun _ => rfl)
        (fun _ => rfl) (fun _ _ => by simp)⟩

end

/-! The catalogue at boot. -/

theorem bindRegisteredFeatures_map (prepared : CStr → Option UInt32) (fs : List Feature) :
    (bindRegisteredFeatures prepared fs).1.map (fun f => (f.name, f.livePid)) =
      fs.map fun f => (f.name, f.livePid) := by
  induction fs with
  | nil => rfl
  | cons f fs ih =>
    unfold bindRegisteredFeatures
    split
    · rfl
    cases prepared f.serviceName.str with
    | none => rfl
    | some id => simpa using ih

theorem prepareFeatures_map (fs : List Feature) :
    (prepareFeatures fs).1.map (fun f => (f.name, f.livePid)) = fs.map fun f => (f.name, f.livePid) := by
  induction fs with
  | nil => rfl
  | cons f fs ih =>
    unfold prepareFeatures
    split
    · rfl
    · simpa using ih

theorem prepareFeatures_ready {fs : List Feature} (h : (prepareFeatures fs).2 = aegisOk) :
    ∀ f ∈ (prepareFeatures fs).1, f.state = .handoffReady := by
  induction fs with
  | nil => simp [prepareFeatures]
  | cons f fs ih =>
    unfold prepareFeatures at h ⊢
    split at h
    · cases h
    rename_i hbound
    rw [if_neg hbound]
    intro g hg
    rcases mem_cons.mp hg with rfl | hg
    · rfl
    · exact ih h g hg

theorem builtin_names :
    ((registerFeatures ⟨[], []⟩ builtinFeatures).1.features.map Feature.name).Nodup := by
  decide +kernel

theorem builtin_idle : ∀ f ∈ (registerFeatures ⟨[], []⟩ builtinFeatures).1.features, f.livePid = 0 := by
  decide +kernel

theorem prepareUserland_spec {prepared : CStr → Option UInt32}
    (h : prepareUserland prepared = some u) :
    u.WellFormed ∧ ∀ f ∈ u.features, f.livePid = 0 := by
  unfold prepareUserland at h
  have hnames := builtin_names
  have hidle := builtin_idle
  generalize registerFeatures ⟨[], []⟩ builtinFeatures = r at h hnames hidle
  dsimp only at h
  split at h
  · cases h
  rename_i hok
  rw [not_or, not_or, not_not, not_not, not_not] at hok
  obtain ⟨init, -, rfl⟩ := Option.map_eq_some_iff.mp h
  have hmap := (prepareFeatures_map _).trans (bindRegisteredFeatures_map prepared r.1.features)
  refine ⟨⟨?_, fun f hf => ?_⟩, fun f hf => ?_⟩
  · have hsame := congrArg (map Prod.fst) hmap
    simp only [map_map] at hsame
    exact hsame ▸ hnames
  · rw [prepareFeatures_ready hok.2.2 f hf]
    simp
  · have hmem : (f.name, f.livePid) ∈ r.1.features.map fun f => (f.name, f.livePid) :=
      hmap ▸ mem_map_of_mem hf
    obtain ⟨g, hg, heq⟩ := mem_map.mp hmem
    exact (congrArg Prod.snd heq).symm.trans (hidle g hg)

end AegisOS.Userland
