import Os161.Lib.Array

/-!
# The table of named devices

Model of `kern/fs/vfs/vfslist.c`: the table `knowndevs`, registration of devices and file systems,
`vfs_mount`, `vfs_unmount` and `vfs_getroot`. All of them hold `knowndevs_lock` while they look at
the table, so a call is one step.

A file system is an identity and the volume name it reports. What a mount function hands back and
what `FSOP_SYNC` and `FSOP_UNMOUNT` answer is decided outside, and so is what `kmalloc` answers.
-/

namespace Os161.Vfslist

open Prog

/-! ## State -/

/-- A `struct fs`; `volname` is what `FSOP_GETVOLNAME` returns. -/
structure Fs where
  id : ℕ
  volname : Option String
deriving DecidableEq

/-- `struct knowndev`. Devices and vnodes are numbered. -/
structure Knowndev where
  kdName : String
  kdRawname : Option String
  kdDevice : Option ℕ
  kdVnode : ℕ
  kdFs : Option Fs
deriving DecidableEq

instance : Inhabited Knowndev := ⟨⟨"", none, none, 0, none⟩⟩

/-- The table, and the vnodes of devices with their reference counts. -/
structure Vfs where
  knowndevs : KArray Knowndev
  vnodes : ℕ
  vnRefcount : ℕ → ℕ

/-- Programs over the table. -/
abbrev VfsM := Prog Errno (Alloc Vfs)

/-- A call of the array functions on `knowndevs`. -/
def onKnowndevs {α : Type} (m : ArrayM Knowndev α) : VfsM α :=
  zoom (fun s => ⟨s.obj.knowndevs, s.nomem⟩)
    (fun s a => ⟨{ s.obj with knowndevs := a.obj }, a.nomem⟩) m

/-- The entries of the table, in order. -/
def table (s : Alloc Vfs) : List Knowndev := s.obj.knowndevs.toList

/-- The state `vfs_bootstrap` starts from, when it has created the table and has not added `null:`
yet. -/
def boot (nomem : List Bool) : Alloc Vfs :=
  ⟨{ knowndevs := ⟨0, 0, fun _ => default⟩, vnodes := 0, vnRefcount := fun _ => 0 }, nomem⟩

/-! ## Names -/

/-- `mkrawname`, when there is memory. -/
def mkrawname (name : String) : String := name ++ "raw"

/-- `samestring`. -/
def samestring : Option String → Option String → Bool
  | some a, some b => a = b
  | _, _ => false

/-- `samestring3`. -/
def samestring3 (a b c d : Option String) : Bool :=
  samestring a b || samestring a c || samestring a d

/-- The test of `badnames` on one entry. -/
def Knowndev.clashes (kd : Knowndev) (n1 n2 n3 : Option String) : Bool :=
  (match kd.kdFs with
    | some fs => samestring3 fs.volname n1 n2 n3
    | none => false) ||
  (samestring3 kd.kdRawname n1 n2 n3 || samestring3 (some kd.kdName) n1 n2 n3)

/-- `badnames`. -/
def badnames (n1 n2 n3 : Option String) : VfsM Bool :=
  gets fun s => (table s).any (·.clashes n1 n2 n3)

/-! ## Registration -/

/-- `dev_create_vnode`. The vnode gets a lock of its own, which takes two more allocations. -/
def devCreateVnode : VfsM (Option ℕ) := do
  if ← kmallocFails then
    return none
  if ← kmallocFails then
    halt "While creating vnode for device: VOP_INIT: Out of memory"
  if ← kmallocFails then
    halt "While creating vnode for device: VOP_INIT: Out of memory"
  let s ← get
  modify fun s => { s with obj := { s.obj with
    vnodes := s.obj.vnodes + 1
    vnRefcount := Function.update s.obj.vnRefcount s.obj.vnodes 1 } }
  return some s.obj.vnodes

/-- The part of `vfs_doadd` before it takes the lock: memory for the names, the vnode and the
entry. -/
def newKnowndev (dname : String) (mountable : Bool) (dev : Option ℕ) (fs : Option Fs) :
    VfsM Knowndev := do
  if ← kmallocFails then
    fail .ENOMEM
  if mountable = true then
    if ← kmallocFails then
      fail .ENOMEM
  let rawname := if mountable = true then some (mkrawname dname) else none
  match ← devCreateVnode with
  | none => fail .ENOMEM
  | some vnode =>
    if ← kmallocFails then
      fail .ENOMEM
    return ⟨dname, rawname, dev, vnode, fs⟩

/-- `vfs_doadd`. -/
def vfsDoadd (dname : String) (mountable : Bool) (dev : Option ℕ) (fs : Option Fs) : VfsM Unit := do
  let kd ← newKnowndev dname mountable dev fs
  if ← badnames (some kd.kdName) kd.kdRawname (kd.kdFs.bind Fs.volname) then
    fail .EEXIST
  else
    onKnowndevs (arrayAdd kd)

/-- `vfs_adddev`. -/
def vfsAdddev (devname : String) (dev : ℕ) (mountable : Bool) : VfsM Unit :=
  vfsDoadd devname mountable (some dev) none

/-- `vfs_addfs`. -/
def vfsAddfs (devname : String) (fs : Fs) : VfsM Unit := vfsDoadd devname false none (some fs)

/-! ## Mounting -/

/-- The search of `findmount`. -/
def findmount (kds : List Knowndev) (devname : String) : Option ℕ :=
  kds.findIdx? fun kd => kd.kdRawname.isSome ∧ devname = kd.kdName

/-- `kd->kd_fs = fs` for the entry at index `i`. -/
def setFs (i : ℕ) (fs : Option Fs) : VfsM Unit :=
  modify fun s => { s with obj := { s.obj with knowndevs := { s.obj.knowndevs with
    v := Function.update s.obj.knowndevs.v i { s.obj.knowndevs.v i with kdFs := fs } } } }

/-- `vfs_mount`. -/
def vfsMount (devname : String) (mountfunc : ℕ → Except Errno (Option Fs)) : VfsM Unit := do
  let s ← get
  match findmount (table s) devname with
  | none => fail .ENODEV
  | some i =>
    let kd := s.obj.knowndevs.v i
    if kd.kdFs.isSome then
      fail .EBUSY
    require kd.kdRawname.isSome "Assertion failed: kd->kd_rawname != NULL"
    match kd.kdDevice with
    | none => halt "Assertion failed: kd->kd_device != NULL"
    | some dev =>
      match mountfunc dev with
      | .error e => fail e
      | .ok none => halt "Assertion failed: fs!=NULL"
      | .ok (some fs) => setFs i (some fs)

/-- The answer of `FSOP_SYNC` or `FSOP_UNMOUNT`: zero or an error. -/
abbrev Fsop := Fs → Option Errno

/-- `vfs_unmount`. -/
def vfsUnmount (devname : String) (sync unmount : Fsop) : VfsM Unit := do
  let s ← get
  match findmount (table s) devname with
  | none => fail .ENODEV
  | some i =>
    let kd := s.obj.knowndevs.v i
    match kd.kdFs with
    | none => fail .EINVAL
    | some fs =>
      require kd.kdRawname.isSome "Assertion failed: kd->kd_rawname != NULL"
      require kd.kdDevice.isSome "Assertion failed: kd->kd_device != NULL"
      match sync fs with
      | some e => fail e
      | none =>
        match unmount fs with
        | some e => fail e
        | none => setFs i none

/-- The body of the loop of `vfs_unmountall`. A failed `FSOP_SYNC` is tried a second time. -/
def unmountEntry (sync resync unmount : Fsop) (i : ℕ) : VfsM Unit := do
  let s ← get
  let kd := s.obj.knowndevs.v i
  match kd.kdRawname, kd.kdFs with
  | some _, some fs =>
    if (sync fs).isSome ∧ (resync fs).isSome then
      return
    if (unmount fs).isSome then
      return
    setFs i none
  | _, _ => return

/-- `vfs_unmountall`. -/
def vfsUnmountall (sync resync unmount : Fsop) : VfsM Unit := do
  let num ← gets (·.obj.knowndevs.num)
  forRange (unmountEntry sync resync unmount) num 0

/-! ## Lookup -/

/-- What `vfs_getroot` hands back: the root of a file system or the vnode of a device. -/
inductive Root where
  | fs (fs : Fs)
  | vnode (v : ℕ)
deriving DecidableEq

/-- `VOP_INCREF` of the vnode of a device, and the result. -/
def deviceRoot (kd : Knowndev) : VfsM Root := do
  require kd.kdDevice.isSome "Assertion failed: kd->kd_device != NULL"
  modify fun s => { s with obj := { s.obj with
    vnRefcount := Function.update s.obj.vnRefcount kd.kdVnode (s.obj.vnRefcount kd.kdVnode + 1) } }
  return .vnode kd.kdVnode

/-- The loop of `vfs_getroot`, over the entries that are left. -/
def getrootFrom (devname : String) : List Knowndev → VfsM Root
  | [] => fail .ENODEV
  | kd :: kds => do
    match kd.kdFs with
    | some fs =>
      if kd.kdName = devname ∨ fs.volname = some devname then
        return .fs fs
    | none =>
      if kd.kdRawname.isSome ∧ kd.kdName = devname then
        fail Errno.ENXIO
    if kd.kdName = devname then
      require (kd.kdFs = none) "Assertion failed: kd->kd_fs==NULL"
      require (kd.kdRawname = none) "Assertion failed: kd->kd_rawname==NULL"
      deviceRoot kd
    else if kd.kdRawname = some devname then
      deviceRoot kd
    else
      getrootFrom devname kds

/-- `vfs_getroot`. -/
def vfsGetroot (devname : String) : VfsM Root := do
  let kds ← gets table
  getrootFrom devname kds

/-! ## Calls -/

/-- A call that changes the table, with the answers of the file systems it asks. -/
inductive Call where
  | adddev (devname : String) (dev : ℕ) (mountable : Bool)
  | addfs (devname : String) (fs : Fs)
  | mount (devname : String) (mountfunc : ℕ → Except Errno (Option Fs))
  | unmount (devname : String) (sync unmount : Fsop)
  | unmountall (sync resync unmount : Fsop)

/-- The function called. -/
def Call.prog : Call → VfsM Unit
  | adddev devname dev mountable => vfsAdddev devname dev mountable
  | addfs devname fs => vfsAddfs devname fs
  | mount devname mountfunc => vfsMount devname mountfunc
  | unmount devname sync drop => vfsUnmount devname sync drop
  | unmountall sync resync drop => vfsUnmountall sync resync drop

/-- The state after a call, unless the machine stopped. -/
def Call.after (s : Alloc Vfs) (c : Call) : Option (Alloc Vfs) :=
  match c.prog s with
  | .ok _ t => some t
  | .err _ t => some t
  | .halted _ => none

/-- The state after a sequence of calls. -/
def afterCalls (s : Alloc Vfs) (calls : List Call) : Option (Alloc Vfs) := calls.foldlM Call.after s

theorem Call.returns_of_after {s t : Alloc Vfs} {c : Call} (h : c.after s = some t) :
    Returns c.prog s t := by
  unfold Call.after at h
  split at h
  case h_1 a u hrun =>
    obtain rfl := Option.some.inj h
    exact .inl ⟨a, hrun⟩
  case h_2 e u hrun =>
    obtain rfl := Option.some.inj h
    exact .inr ⟨e, hrun⟩
  case h_3 => cases h

/-! ## Names of entries -/

/-- The names of an entry: of the device, of the raw device and of the volume mounted on it. -/
def Knowndev.names (kd : Knowndev) : List String :=
  kd.kdName :: (kd.kdRawname.toList ++ (kd.kdFs.bind Fs.volname).toList)

theorem Knowndev.mem_names {kd : Knowndev} {n : String} :
    n ∈ kd.names ↔ kd.kdName = n ∨ kd.kdRawname = some n ∨ kd.kdFs.bind Fs.volname = some n := by
  simp only [names, List.mem_cons, List.mem_append, Option.mem_toList, eq_comm]

/-- No string is a name of two different entries. -/
def Unambiguous (kds : List Knowndev) : Prop :=
  ∀ (i j : ℕ) (kd kd' : Knowndev), i ≠ j → kds[i]? = some kd → kds[j]? = some kd' →
    ∀ n ∈ kd.names, n ∉ kd'.names

theorem samestring_iff {a b : Option String} :
    samestring a b = true ↔ ∃ n, a = some n ∧ b = some n := by
  cases a <;> cases b <;> simp [samestring, eq_comm]

/-- The test of `badnames` compares every name of the entry with the three strings. -/
theorem Knowndev.clashes_iff {kd : Knowndev} {n1 n2 n3 : Option String} :
    kd.clashes n1 n2 n3 = true ↔ ∃ n ∈ kd.names, n1 = some n ∨ n2 = some n ∨ n3 = some n := by
  have hthree : ∀ a, samestring3 a n1 n2 n3 = true ↔
      ∃ n, a = some n ∧ (n1 = some n ∨ n2 = some n ∨ n3 = some n) := by
    intro a
    simp only [samestring3, Bool.or_eq_true, samestring_iff]
    aesop
  have hvol : (match kd.kdFs with
      | some fs => samestring3 fs.volname n1 n2 n3
      | none => false) = samestring3 (kd.kdFs.bind Fs.volname) n1 n2 n3 := by
    cases kd.kdFs with
    | none => rfl
    | some fs => rfl
  rw [clashes, hvol]
  simp only [Bool.or_eq_true, hthree, mem_names]
  aesop

/-- A new entry whose names nobody has. -/
theorem Unambiguous.push {kds : List Knowndev} (h : Unambiguous kds) {kd : Knowndev}
    (hnew : ∀ kd' ∈ kds, ∀ n ∈ kd'.names, n ∉ kd.names) : Unambiguous (kds ++ [kd]) := by
  -- an entry of the longer table is an old one or the new one
  have hentry : ∀ (i : ℕ) (x : Knowndev), (kds ++ [kd])[i]? = some x →
      kds[i]? = some x ∨ i = kds.length ∧ x = kd := by
    intro i x hx
    rw [List.getElem?_append] at hx
    split at hx
    · exact .inl hx
    · right
      obtain ⟨hlt, hx⟩ := List.getElem?_eq_some_iff.mp hx
      simp only [List.length_singleton] at hlt
      refine ⟨by omega, ?_⟩
      simpa using hx.symm
  intro i j x y hij hx hy n hnx hny
  rcases hentry i x hx with hx' | ⟨hi, rfl⟩
  · rcases hentry j y hy with hy' | ⟨-, rfl⟩
    · exact h i j x y hij hx' hy' n hnx hny
    · exact hnew x (List.mem_of_getElem? hx') n hnx hny
  · rcases hentry j y hy with hy' | ⟨hj, -⟩
    · exact hnew y (List.mem_of_getElem? hy') n hny hnx
    · exact hij (hi.trans hj.symm)

/-- An entry that changes keeps to its names or takes names that no other entry has. -/
theorem Unambiguous.set {kds : List Knowndev} (h : Unambiguous kds) {i : ℕ} {kd kd' : Knowndev}
    (hi : kds[i]? = some kd)
    (hnames : ∀ n ∈ kd'.names, n ∈ kd.names ∨
      ∀ (j : ℕ) (x : Knowndev), j ≠ i → kds[j]? = some x → n ∉ x.names) :
    Unambiguous (kds.set i kd') := by
  have hentry : ∀ (j : ℕ) (x : Knowndev), (kds.set i kd')[j]? = some x →
      j ≠ i ∧ kds[j]? = some x ∨ j = i ∧ x = kd' := by
    intro j x hx
    rw [List.getElem?_set] at hx
    split at hx
    case isTrue hij =>
      split at hx
      · exact .inr ⟨hij.symm, (Option.some.inj hx).symm⟩
      · cases hx
    case isFalse hij => exact .inl ⟨Ne.symm hij, hx⟩
  -- a name of the new entry is not a name of another one
  have hnew : ∀ (j : ℕ) (x : Knowndev), j ≠ i → kds[j]? = some x → ∀ n ∈ kd'.names, n ∉ x.names := by
    intro j x hj hx n hn
    rcases hnames n hn with hold | hfree
    · exact h i j kd x (Ne.symm hj) hi hx n hold
    · exact hfree j x hj hx
  intro j l x y hjl hx hy n hnx hny
  rcases hentry j x hx with ⟨hj, hx'⟩ | ⟨rfl, rfl⟩
  · rcases hentry l y hy with ⟨-, hy'⟩ | ⟨-, rfl⟩
    · exact h j l x y hjl hx' hy' n hnx hny
    · exact hnew j x hj hx' n hny hnx
  · rcases hentry l y hy with ⟨hl, hy'⟩ | ⟨rfl, -⟩
    · exact hnew l y hl hy' n hnx hny
    · exact hjl rfl

/-! ## Lookup in an unambiguous table -/

/-- What `vfs_getroot` does with an entry that has the name. -/
def answer (devname : String) (kd : Knowndev) : VfsM Root := getrootFrom devname [kd]

/-- The loop stops at an entry that has the name. -/
theorem getrootFrom_of_mem {devname : String} {kd : Knowndev} (hname : devname ∈ kd.names)
    (kds : List Knowndev) : getrootFrom devname (kd :: kds) = answer devname kd := by
  rw [Knowndev.mem_names] at hname
  simp only [answer, getrootFrom]
  by_cases hdev : kd.kdName = devname
  · simp only [hdev, if_true]
  · by_cases hraw : kd.kdRawname = some devname
    · simp only [hraw, if_true]
    · cases hfs : kd.kdFs with
      | none => simp [hdev, hraw, hfs] at hname
      | some fs =>
        have hvol : fs.volname = some devname := by simpa [hdev, hraw, hfs] using hname
        simp only [hvol, or_true, if_true]

/-- The loop passes over an entry that does not have the name. -/
theorem getrootFrom_of_not_mem {devname : String} {kd : Knowndev} (hname : devname ∉ kd.names)
    (kds : List Knowndev) : getrootFrom devname (kd :: kds) = getrootFrom devname kds := by
  rw [Knowndev.mem_names, not_or, not_or] at hname
  obtain ⟨hdev, hraw, hvol⟩ := hname
  rw [getrootFrom]
  cases hfs : kd.kdFs with
  | none => simp only [hdev, hraw, and_false, if_false]
  | some fs =>
    rw [hfs] at hvol
    have hvol' : fs.volname ≠ some devname := hvol
    simp only [hdev, hraw, hvol', or_self, if_false]

/-- The loop of `vfs_getroot` answers for the first entry that has the name. -/
theorem getrootFrom_eq (devname : String) (kds : List Knowndev) :
    getrootFrom devname kds = match kds.find? fun kd => devname ∈ kd.names with
      | none => fail .ENODEV
      | some kd => answer devname kd := by
  induction kds with
  | nil => rfl
  | cons kd kds ih =>
    by_cases hname : devname ∈ kd.names
    · rw [List.find?_cons_of_pos (by simpa using hname)]
      exact getrootFrom_of_mem hname kds
    · rw [List.find?_cons_of_neg (by simpa using hname), ← ih]
      exact getrootFrom_of_not_mem hname kds

/-- Only one entry has a given name. -/
theorem Unambiguous.eq_of_mem {kds : List Knowndev} (h : Unambiguous kds) {kd kd' : Knowndev}
    (hkd : kd ∈ kds) (hkd' : kd' ∈ kds) {n : String} (hn : n ∈ kd.names) (hn' : n ∈ kd'.names) :
    kd = kd' := by
  obtain ⟨i, hi⟩ := List.mem_iff_getElem?.mp hkd
  obtain ⟨j, hj⟩ := List.mem_iff_getElem?.mp hkd'
  by_cases hij : i = j
  · subst hij
    exact Option.some.inj (hi.symm.trans hj)
  · exact absurd hn' (h i j kd kd' hij hi hj n hn)

/-- In an unambiguous table the order of the entries does not matter. -/
theorem Unambiguous.getrootFrom_perm {kds kds' : List Knowndev} (h : Unambiguous kds)
    (hperm : kds'.Perm kds) (devname : String) :
    getrootFrom devname kds' = getrootFrom devname kds := by
  have hfind : (kds'.find? fun kd => devname ∈ kd.names) =
      kds.find? fun kd => devname ∈ kd.names := by
    cases hold : kds.find? fun kd => devname ∈ kd.names with
    | none =>
      rw [List.find?_eq_none] at hold ⊢
      exact fun kd hkd => hold kd (hperm.mem_iff.mp hkd)
    | some kd =>
      cases hnew : kds'.find? fun kd => devname ∈ kd.names with
      | none =>
        have hkd := hperm.mem_iff.mpr (List.mem_of_find?_eq_some hold)
        exact absurd (List.find?_some hold) (List.find?_eq_none.mp hnew kd hkd)
      | some kd' =>
        have hkd := List.mem_of_find?_eq_some hold
        have hkd' := hperm.mem_iff.mp (List.mem_of_find?_eq_some hnew)
        have hname : devname ∈ kd.names := by simpa using List.find?_some hold
        have hname' : devname ∈ kd'.names := by simpa using List.find?_some hnew
        exact congrArg some (h.eq_of_mem hkd' hkd hname' hname)
  rw [getrootFrom_eq, getrootFrom_eq, hfind]

/-! ## What calls do to the table -/

/-- `array_getguy` never sees more entries than the array has room for. -/
def Fits (s : Alloc Vfs) : Prop := s.obj.knowndevs.num ≤ s.obj.knowndevs.max

variable {s : Alloc Vfs}

/-- `array_add` on the table. -/
theorem addKnowndev_spec (h : Fits s) (kd : Knowndev) :
    Meets (onKnowndevs (arrayAdd kd)) (fun _ t => Fits t ∧ table t = table s ++ [kd])
      (fun _ t => Fits t ∧ table t = table s) s := by
  rw [onKnowndevs, meets_zoom]
  refine (arrayAdd_spec (s := ⟨s.obj.knowndevs, s.nomem⟩) h kd).mono ?_ ?_
  · intro _ a hadd
    exact ⟨hadd.le, hadd.toList⟩
  · rintro e a ⟨-, -, hobj⟩
    exact ⟨hobj ▸ h, congrArg KArray.toList hobj⟩

/-- The allocations of `vfs_doadd` leave the table alone. -/
theorem newKnowndev_spec (dname : String) (mountable : Bool) (dev : Option ℕ) (fs : Option Fs) :
    Meets (newKnowndev dname mountable dev fs)
      (fun _ t => t.obj.knowndevs = s.obj.knowndevs)
      (fun _ t => t.obj.knowndevs = s.obj.knowndevs) s (fun _ => True) := by
  cases mountable with
  | true =>
    simp only [newKnowndev, devCreateVnode, kmallocFails, meets_bind, meets_get, meets_modify,
      meets_pure, meets_ite, meets_fail, meets_halt, implies_true, and_self]
  | false =>
    simp only [newKnowndev, devCreateVnode, kmallocFails, meets_bind, meets_get, meets_modify,
      meets_pure, meets_ite, meets_fail, meets_halt, implies_true, and_self]

/-- Registration adds an entry whose names are new, or leaves the table alone. -/
theorem vfsDoadd_spec (h : Fits s) (dname : String) (mountable : Bool) (dev : Option ℕ)
    (fs : Option Fs) :
    Meets (vfsDoadd dname mountable dev fs)
      (fun _ t => Fits t ∧ ∃ kd, table t = table s ++ [kd] ∧
        ∀ kd' ∈ table s, ∀ n ∈ kd'.names, n ∉ kd.names)
      (fun _ t => Fits t ∧ table t = table s) s (fun _ => True) := by
  have hsame : ∀ {t : Alloc Vfs}, t.obj.knowndevs = s.obj.knowndevs → Fits t ∧ table t = table s :=
    fun ht => ⟨by rw [Fits, ht]; exact h, by rw [table, ht, table]⟩
  rw [vfsDoadd, meets_bind]
  refine (newKnowndev_spec dname mountable dev fs).mono ?_ fun _ t ht => hsame ht
  intro kd t ht
  obtain ⟨hfits, htable⟩ := hsame ht
  simp only [badnames, meets_bind, meets_gets, meets_ite, meets_fail]
  refine ⟨fun _ => ⟨hfits, htable⟩, fun hgood => ?_⟩
  refine (addKnowndev_spec hfits kd).partial_of.mono ?_ ?_
  · rintro _ u ⟨hfits', htable'⟩
    refine ⟨hfits', kd, by rw [htable', htable], fun kd' hkd' n hn hnew => hgood ?_⟩
    rw [List.any_eq_true, htable]
    refine ⟨kd', hkd', Knowndev.clashes_iff.mpr ⟨n, hn, ?_⟩⟩
    rcases Knowndev.mem_names.mp hnew with rfl | hraw | hvol
    · exact .inl rfl
    · exact .inr (.inl hraw)
    · exact .inr (.inr hvol)
  · rintro _ u ⟨hfits', htable'⟩
    exact ⟨hfits', htable'.trans htable⟩

/-- `findmount` finds a mountable device of that name. -/
theorem findmount_spec {devname : String} {i : ℕ} (hfind : findmount (table s) devname = some i) :
    (table s)[i]? = some (s.obj.knowndevs.v i) ∧ (s.obj.knowndevs.v i).kdRawname.isSome := by
  obtain ⟨hlt, hmatch, -⟩ := List.findIdx?_eq_some_iff_getElem.mp hfind
  have hget : (table s)[i]? = some (s.obj.knowndevs.v i) :=
    KArray.getElem?_toList _ (by rwa [table, KArray.length_toList] at hlt)
  have heq : (table s)[i] = s.obj.knowndevs.v i := by
    rw [List.getElem?_eq_getElem hlt] at hget
    exact Option.some.inj hget
  rw [heq] at hmatch
  exact ⟨hget, (of_decide_eq_true hmatch).1⟩

/-- Changing the file system of an entry. -/
theorem setFs_spec (h : Fits s) (i : ℕ) (fs : Option Fs) :
    Meets (setFs i fs) (fun _ t => Fits t ∧
      table t = (table s).set i { s.obj.knowndevs.v i with kdFs := fs }) (fun _ _ => False) s := by
  rw [setFs, meets_modify]
  exact ⟨h, KArray.toList_set _ _ _⟩

/-- The mount function puts the volume `fs` on the entry `kd` at index `i`. -/
structure Mounts (kds : List Knowndev) (devname : String)
    (mountfunc : ℕ → Except Errno (Option Fs)) (i : ℕ) (kd : Knowndev) (fs : Fs) : Prop where
  found : findmount kds devname = some i
  entry : kds[i]? = some kd
  idle : kd.kdFs = none
  mounted : ∃ dev, kd.kdDevice = some dev ∧ mountfunc dev = .ok (some fs)

/-- `vfs_mount` puts the volume on the entry and looks at no name; or it leaves the table alone. -/
theorem vfsMount_spec (h : Fits s) (devname : String) (mountfunc : ℕ → Except Errno (Option Fs)) :
    Meets (vfsMount devname mountfunc)
      (fun _ t => Fits t ∧ ∃ i kd fs, Mounts (table s) devname mountfunc i kd fs ∧
        table t = (table s).set i { kd with kdFs := some fs })
      (fun _ t => t = s ∧ ∀ i kd fs, ¬ Mounts (table s) devname mountfunc i kd fs) s
      (fun _ => True) := by
  rw [vfsMount, meets_bind, meets_get]
  cases hfind : findmount (table s) devname with
  | none =>
    refine ⟨rfl, fun i kd fs hm => ?_⟩
    rw [hm.found] at hfind
    cases hfind
  | some i =>
    have hentry := (findmount_spec hfind).1
    generalize hkd : s.obj.knowndevs.v i = kd at *
    -- there is only one entry to mount on
    have hunique : ∀ i' kd' fs, Mounts (table s) devname mountfunc i' kd' fs → kd' = kd := by
      intro i' kd' fs hm
      obtain rfl : i = i' := Option.some.inj (hfind.symm.trans hm.found)
      exact Option.some.inj (hm.entry.symm.trans hentry)
    simp only [meets_ite, meets_fail, meets_bind, meets_require_partial, hkd]
    refine ⟨fun hbusy => ⟨trivial, fun i' kd' fs hm => ?_⟩, fun hidle _ => ?_⟩
    · obtain rfl := hunique i' kd' fs hm
      rw [hm.idle] at hbusy
      cases hbusy
    cases hdev : kd.kdDevice with
    | none => trivial
    | some dev =>
      cases hfs : mountfunc dev with
      | error e =>
        simp only [hfs, meets_fail]
        refine ⟨trivial, fun i' kd' fs hm => ?_⟩
        obtain rfl := hunique i' kd' fs hm
        obtain ⟨dev', hdev', hfs'⟩ := hm.mounted
        obtain rfl : dev = dev' := Option.some.inj (hdev.symm.trans hdev')
        rw [hfs] at hfs'
        cases hfs'
      | ok r =>
        cases r with
        | none => simp only [hfs, meets_halt]
        | some fs =>
          simp only [hfs]
          refine (setFs_spec h i (some fs)).partial_of.noErr ?_
          rintro _ t ⟨hfits, htable⟩
          rw [hkd] at htable
          exact ⟨hfits, i, kd, fs, ⟨hfind, hentry, by simpa using hidle, dev, hdev, hfs⟩, htable⟩

/-- The table, when the file system of one entry may have been dropped. -/
def Dropped (s t : Alloc Vfs) : Prop :=
  Fits t ∧ (table t = table s ∨ ∃ (i : ℕ) (kd : Knowndev), (table s)[i]? = some kd ∧
    table t = (table s).set i { kd with kdFs := none })

theorem vfsUnmount_spec (h : Fits s) (devname : String) (sync unmount : Fsop) :
    Meets (vfsUnmount devname sync unmount) (fun _ t => Dropped s t) (fun _ t => Dropped s t) s
      (fun _ => True) := by
  have hsame : Dropped s s := ⟨h, .inl rfl⟩
  rw [vfsUnmount, meets_bind, meets_get]
  cases hfind : findmount (table s) devname with
  | none => exact hsame
  | some i =>
    have hentry := (findmount_spec hfind).1
    simp only
    cases hfs : (s.obj.knowndevs.v i).kdFs with
    | none => exact hsame
    | some fs =>
      simp only [meets_bind, meets_require_partial]
      intro _ _
      cases hsync : sync fs with
      | some e => exact hsame
      | none =>
        cases hunmount : unmount fs with
        | some e => simpa only [hunmount, meets_fail] using hsame
        | none =>
          simp only
          refine (setFs_spec h i none).partial_of.noErr fun _ t ht => ?_
          exact ⟨ht.1, .inr ⟨i, _, hentry, ht.2⟩⟩

theorem unmountEntry_spec (h : Fits s) (sync resync unmount : Fsop) {i : ℕ}
    (hi : i < s.obj.knowndevs.num) :
    Meets (unmountEntry sync resync unmount i) (fun _ t => Dropped s t) (fun _ _ => False) s := by
  have hsame : Dropped s s := ⟨h, .inl rfl⟩
  rw [unmountEntry, meets_bind, meets_get]
  dsimp only
  split
  case h_2 => exact hsame
  case h_1 raw fs hraw hfs =>
    simp only [meets_ite, meets_pure]
    refine ⟨fun _ => hsame, fun _ => ⟨fun _ => hsame, fun _ => ?_⟩⟩
    refine (setFs_spec h i none).imp fun _ t ht => ?_
    exact ⟨ht.1, .inr ⟨i, _, KArray.getElem?_toList _ hi, ht.2⟩⟩

/-- Dropping a file system takes names away. -/
theorem Dropped.unambiguous {t : Alloc Vfs} (hd : Dropped s t) (hu : Unambiguous (table s)) :
    Unambiguous (table t) := by
  obtain ⟨-, htable | ⟨i, kd, hi, htable⟩⟩ := hd
  · rwa [htable]
  · rw [htable]
    refine hu.set hi fun n hn => .inl ?_
    rw [Knowndev.mem_names] at hn ⊢
    rcases hn with hdev | hraw | hvol
    · exact .inl hdev
    · exact .inr (.inl hraw)
    · cases hvol

theorem Dropped.num_eq {t : Alloc Vfs} (hd : Dropped s t) :
    t.obj.knowndevs.num = s.obj.knowndevs.num := by
  have hlen : (table t).length = (table s).length := by
    obtain ⟨-, htable | ⟨i, kd, -, htable⟩⟩ := hd
    · rw [htable]
    · rw [htable, List.length_set]
  simpa only [table, KArray.length_toList] using hlen

theorem vfsUnmountall_spec (h : Fits s) (sync resync unmount : Fsop) :
    Meets (vfsUnmountall sync resync unmount)
      (fun _ t => Fits t ∧ (Unambiguous (table s) → Unambiguous (table t)))
      (fun _ _ => False) s := by
  rw [vfsUnmountall, meets_bind, meets_gets]
  refine (Meets.forRange (fun _ t => (Fits t ∧ (Unambiguous (table s) → Unambiguous (table t))) ∧
    t.obj.knowndevs.num = s.obj.knowndevs.num) ⟨⟨h, id⟩, rfl⟩ ?_).imp fun _ t ht => ht.1
  rintro i t - hi ⟨⟨hfits, hut⟩, hnum⟩
  refine (unmountEntry_spec hfits sync resync unmount (by omega)).imp fun _ u hd => ?_
  exact ⟨⟨hd.1, fun hu => hd.unambiguous (hut hu)⟩, hd.num_eq.trans hnum⟩

/-! ## Sequences of calls -/

/-- The call mounts no volume that has a name of another entry. -/
def Call.Clean (kds : List Knowndev) : Call → Prop
  | mount devname mountfunc => ∀ i kd fs v, Mounts kds devname mountfunc i kd fs →
      fs.volname = some v → ∀ (j : ℕ) (kd' : Knowndev), j ≠ i → kds[j]? = some kd' → v ∉ kd'.names
  | _ => True

/-- The volume mounted adds its name to those of the entry. -/
theorem unambiguous_mount_iff {kds : List Knowndev} (hu : Unambiguous kds) {devname : String}
    {mountfunc : ℕ → Except Errno (Option Fs)} {i : ℕ} {kd : Knowndev} {fs : Fs}
    (hm : Mounts kds devname mountfunc i kd fs) :
    Unambiguous (kds.set i { kd with kdFs := some fs }) ↔
      (Call.mount devname mountfunc).Clean kds := by
  constructor
  · intro hnew i' kd₁ fs₁ v hm₁ hvol j kd' hj hkd' hv
    obtain rfl : i = i' := Option.some.inj (hm.found.symm.trans hm₁.found)
    obtain rfl : kd = kd₁ := Option.some.inj (hm.entry.symm.trans hm₁.entry)
    obtain rfl : fs = fs₁ := by
      obtain ⟨dev, hdev, hfs⟩ := hm.mounted
      obtain ⟨dev₁, hdev₁, hfs₁⟩ := hm₁.mounted
      obtain rfl : dev = dev₁ := Option.some.inj (hdev.symm.trans hdev₁)
      simpa using hfs.symm.trans hfs₁
    have hlt := (List.getElem?_eq_some_iff.mp hm.entry).1
    refine hnew i j { kd with kdFs := some fs } kd' (Ne.symm hj) ?_ ?_ v ?_ hv
    · rw [List.getElem?_set_self hlt]
    · rwa [List.getElem?_set_ne (Ne.symm hj)]
    · exact Knowndev.mem_names.mpr (.inr (.inr hvol))
  · intro hclean
    refine hu.set hm.entry fun n hn => ?_
    rcases Knowndev.mem_names.mp hn with hdev | hraw | hvol
    · exact .inl (Knowndev.mem_names.mpr (.inl hdev))
    · exact .inl (Knowndev.mem_names.mpr (.inr (.inl hraw)))
    · exact .inr (hclean i kd fs n hm hvol)

/-- A call keeps the names unambiguous exactly when it is clean. -/
theorem Call.unambiguous_iff {c : Call} {t : Alloc Vfs} (h : Fits s) (hcall : c.after s = some t) :
    Fits t ∧ (Unambiguous (table s) → (Unambiguous (table t) ↔ c.Clean (table s))) := by
  have hret := Call.returns_of_after hcall
  -- both kinds of registration
  have hadd : ∀ {dname mountable dev fs}, Returns (vfsDoadd dname mountable dev fs) s t →
      Fits t ∧ (Unambiguous (table s) → Unambiguous (table t)) := by
    intro dname mountable dev fs hret
    rcases (vfsDoadd_spec h dname mountable dev fs).returns hret with
      ⟨_, hfits, kd, htable, hnew⟩ | ⟨_, hfits, htable⟩
    · rw [htable]
      exact ⟨hfits, fun hu => hu.push hnew⟩
    · rw [htable]
      exact ⟨hfits, id⟩
  cases c with
  | adddev devname dev mountable =>
    obtain ⟨hfits, hut⟩ := hadd hret
    exact ⟨hfits, fun hu => iff_of_true (hut hu) trivial⟩
  | addfs devname fs =>
    obtain ⟨hfits, hut⟩ := hadd hret
    exact ⟨hfits, fun hu => iff_of_true (hut hu) trivial⟩
  | mount devname mountfunc =>
    rcases (vfsMount_spec h devname mountfunc).returns hret with
      ⟨_, hfits, i, kd, fs, hm, htable⟩ | ⟨_, rfl, hnone⟩
    · rw [htable]
      exact ⟨hfits, fun hu => unambiguous_mount_iff hu hm⟩
    · refine ⟨h, fun hu => iff_of_true hu fun i kd fs v hm => ?_⟩
      exact absurd hm (hnone i kd fs)
  | unmount devname sync drop =>
    rcases (vfsUnmount_spec h devname sync drop).returns hret with ⟨_, hd⟩ | ⟨_, hd⟩
    · exact ⟨hd.1, fun hu => iff_of_true (hd.unambiguous hu) trivial⟩
    · exact ⟨hd.1, fun hu => iff_of_true (hd.unambiguous hu) trivial⟩
  | unmountall sync resync drop =>
    rcases (vfsUnmountall_spec h sync resync drop).returns hret with ⟨_, hfits, hut⟩ | ⟨_, hf⟩
    · exact ⟨hfits, fun hu => iff_of_true (hut hu) trivial⟩
    · exact hf.elim

theorem afterCalls_snoc {s t : Alloc Vfs} {calls : List Call} {c : Call} :
    afterCalls s (calls ++ [c]) = some t ↔ ∃ u, afterCalls s calls = some u ∧ c.after u = some t := by
  simp only [afterCalls, List.foldlM_append, List.foldlM_cons, List.foldlM_nil, bind_pure,
    Option.bind_eq_bind, Option.bind_eq_some_iff]

/-- The table fits its array after any sequence of calls. -/
theorem fits_afterCalls {nomem : List Bool} {calls : List Call}
    (hs : afterCalls (boot nomem) calls = some s) : Fits s := by
  induction calls using List.reverseRecOn generalizing s with
  | nil =>
    obtain rfl := Option.some.inj hs
    exact le_rfl
  | append_singleton calls c ih =>
    obtain ⟨u, hu, hc⟩ := afterCalls_snoc.mp hs
    exact (Call.unambiguous_iff (ih hu) hc).1

/-- **When names are unambiguous.** In every state of a sequence of calls no string is a name of two
entries, and `vfs_getroot` finds the same in whatever order the table is, if and only if no
`vfs_mount` in the sequence mounts a volume whose name is a name of another entry. Registration
checks its names and unmounting takes names away; `vfs_mount` adds a name and does not check it. -/
theorem names_unambiguous_iff (nomem : List Bool) (calls : List Call) :
    (∀ pre post s, calls = pre ++ post → afterCalls (boot nomem) pre = some s →
      Unambiguous (table s) ∧ ∀ devname kds, kds.Perm (table s) →
        getrootFrom devname kds s = vfsGetroot devname s) ↔
    ∀ pre c post s t, calls = pre ++ c :: post → afterCalls (boot nomem) pre = some s →
      c.after s = some t → c.Clean (table s) := by
  constructor
  · intro hall pre c post s t hcalls hpre hc
    have hs := (hall pre (c :: post) s hcalls hpre).1
    have ht := (hall (pre ++ [c]) post t (by rw [hcalls, List.append_assoc]; rfl)
      (afterCalls_snoc.mpr ⟨s, hpre, hc⟩)).1
    exact ((Call.unambiguous_iff (fits_afterCalls hpre) hc).2 hs).mp ht
  · intro hclean pre post s hcalls hpre
    have hu : Unambiguous (table s) := by
      induction pre using List.reverseRecOn generalizing post s with
      | nil =>
        obtain rfl := Option.some.inj hpre
        intro i j kd kd' _ hi
        cases hi
      | append_singleton pre c ih =>
        obtain ⟨u, hu, hc⟩ := afterCalls_snoc.mp hpre
        have hcalls' : calls = pre ++ c :: post := by rw [hcalls, List.append_assoc]; rfl
        refine ((Call.unambiguous_iff (fits_afterCalls hu) hc).2 (ih (c :: post) u hcalls' hu)).mpr ?_
        exact hclean pre c post u s hcalls' hu hc
    exact ⟨hu, fun devname kds hperm => congrFun (hu.getrootFrom_perm hperm devname) s⟩

/-- Two disks, and on the first of them a volume that is called like the second. -/
def borrowedName : List Call :=
  [.adddev "lhd0" 0 true, .adddev "lhd1" 1 true,
    .mount "lhd0" fun _ => .ok (some ⟨0, some "lhd1"⟩)]

/-- The volume on `lhd0` and the device `lhd1` have one name. The lookup of that name finds the
volume, although `lhd1` has no file system, and it would find nothing if the disks had been
registered in the other order. -/
theorem borrowedName_ambiguous : ∃ s, afterCalls (boot []) borrowedName = some s ∧
    ¬ Unambiguous (table s) ∧
    vfsGetroot "lhd1" s = .ok (.fs ⟨0, some "lhd1"⟩) s ∧
    (table s).reverse.Perm (table s) ∧
    getrootFrom "lhd1" (table s).reverse s = .err Errno.ENXIO s := by
  have hsome : (afterCalls (boot []) borrowedName).isSome = true := by decide +kernel
  obtain ⟨s, hs⟩ := Option.isSome_iff_exists.mp hsome
  have htable : table s = [⟨"lhd0", some "lhd0raw", some 0, 0, some ⟨0, some "lhd1"⟩⟩,
      ⟨"lhd1", some "lhd1raw", some 1, 1, none⟩] := by
    have hmap : (afterCalls (boot []) borrowedName).map table =
        some [⟨"lhd0", some "lhd0raw", some 0, 0, some ⟨0, some "lhd1"⟩⟩,
          ⟨"lhd1", some "lhd1raw", some 1, 1, none⟩] := by decide +kernel
    rw [hs] at hmap
    exact Option.some.inj hmap
  refine ⟨s, hs, fun hu => ?_, ?_, List.reverse_perm _, ?_⟩
  · rw [htable] at hu
    exact hu 0 1 _ _ (by decide) rfl rfl "lhd1" (by decide) (by decide)
  · show getrootFrom "lhd1" (table s) s = _
    rw [htable]
    rfl
  · rw [htable]
    rfl

end Os161.Vfslist
