import Os161.Common.Simulation
import Os161.Vfs.Vfslist

/-!
# Path prefixes

Model of `kern/fs/vfs/vfslookup.c`: `getdevice` takes the device name, if there is one, off the
front of a path and chooses the vnode at which the lookup begins; `vfs_lookup` and `vfs_lookparent`
hand the rest of the path on to that vnode.

The path is a string in memory, with its NUL. Every access goes through the memory of the string,
and one outside stops the machine. The names of the mounted devices are those of the table of
`vfslist.c`; `VOP_LOOKUP` and `VOP_LOOKPARENT` are parameters.

`ParsesTo` says which path starts where and what is handed on. `getdevice_eq` is the main step: on
the memory of a path, `getdevice` is the choice of the start vnode, and the memory is as `ParsesTo`
says.
-/

namespace Os161.Vfslist

open Prog

/-! ## State -/

/-- Vnodes: the root of a file system, another file or directory in it, or a device. -/
inductive Vnode where
  | root (fs : Fs)
  | file (fs : Fs) (ino : ℕ)
  | device (v : ℕ)
deriving DecidableEq

/-- `vn_fs`. -/
def Vnode.vnFs : Vnode → Option Fs
  | root fs => some fs
  | file fs _ => some fs
  | device _ => none

/-- What names are looked up in: the table of devices, the boot file system and the current
directory of the thread. `refcount` counts the references to vnodes of file systems; those of
devices are with the table. -/
structure Naming where
  vfs : Alloc Vfs
  bootfsVnode : Option Vnode
  tCwd : Option Vnode
  refcount : Vnode → ℕ

abbrev NamingM := Prog Errno Naming

/-- A call of the functions of the table. -/
def onVfs {α : Type} (m : VfsM α) : NamingM α := zoom Naming.vfs (fun s vfs => { s with vfs }) m

/-- Set the reference count of a vnode. -/
def setRefcount (vn : Vnode) (n : ℕ) : NamingM Unit :=
  match vn with
  | .device v => onVfs (modify fun s => { s with obj := { s.obj with
      vnRefcount := Function.update s.obj.vnRefcount v n } })
  | vn => modify fun s => { s with refcount := Function.update s.refcount vn n }

/-- `vn_refcount`. -/
def getRefcount (vn : Vnode) : NamingM ℕ :=
  match vn with
  | .device v => gets fun s => s.vfs.obj.vnRefcount v
  | vn => gets fun s => s.refcount vn

/-- `VOP_INCREF`. -/
def vnodeIncref (vn : Vnode) : NamingM Unit := do
  let n ← getRefcount vn
  setRefcount vn (n + 1)

/-- `VOP_DECREF`. A vnode without references is reclaimed. -/
def vnodeDecref (vn : Vnode) : NamingM Unit := do
  let n ← getRefcount vn
  require (0 < n) "Assertion failed: vn->vn_refcount>0"
  setRefcount vn (n - 1)

/-- `FSOP_GETROOT`. -/
def fsopGetroot (fs : Fs) : NamingM Vnode := do
  vnodeIncref (.root fs)
  return .root fs

/-- `vfs_getcurdir`. -/
def vfsGetcurdir : NamingM Vnode := do
  match ← gets Naming.tCwd with
  | none => fail .ENOENT
  | some vn =>
    vnodeIncref vn
    return vn

/-- `vfs_getroot`, with the reference to the root of a file system. -/
def getrootVnode (devname : List Char) : NamingM Vnode := do
  match ← onVfs (vfsGetroot (String.ofList devname)) with
  | .fs fs => fsopGetroot fs
  | .vnode v => return .device v

/-- The start of `/path`: the root of the boot file system. -/
def getbootfs : NamingM Vnode := do
  match ← gets Naming.bootfsVnode with
  | none => fail .ENOENT
  | some vn =>
    vnodeIncref vn
    return vn

/-- The start of `:path`: the root of the file system of the current directory. -/
def getcurroot : NamingM Vnode := do
  let vn ← vfsGetcurdir
  match vn.vnFs with
  | none => halt "Assertion failed: vn->vn_fs!=NULL"
  | some fs =>
    let root ← fsopGetroot fs
    vnodeDecref vn
    return root

/-! ## The code -/

/-- The state with the memory of the path: its characters and the NUL. -/
structure Lookup where
  mem : List Char
  naming : Naming

abbrev LookupM := Prog Errno Lookup

/-- A step that does not touch the path. -/
def onNaming {α : Type} (m : NamingM α) : LookupM α :=
  zoom Lookup.naming (fun s naming => { s with naming }) m

/-- `path[i]`. -/
def readChar (i : ℕ) : LookupM Char := do
  match (← gets Lookup.mem)[i]? with
  | some c => return c
  | none => halt "read outside the path"

/-- `path[i] = c`. -/
def writeChar (i : ℕ) (c : Char) : LookupM Unit := do
  let mem ← gets Lookup.mem
  require (i < mem.length) "write outside the path"
  modify fun s => { s with mem := s.mem.set i c }

/-- The loop that locates the first colon or slash; the list is the memory from `path[i]` on. The
result is `colon` and `slash`. -/
def locate : List Char → ℕ → LookupM (ℤ × ℤ)
  | [], _ => halt "read outside the path"
  | c :: rest, i =>
    if c = '\x00' then pure (-1, -1)
    else if c = ':' then pure (i, -1)
    else if c = '/' then pure (-1, i)
    else locate rest (i + 1)

/-- The loops that skip slashes; the list is the memory from `path[i]` on. The result is the index
of the first character that is not a slash. -/
def skipSlashes : List Char → ℕ → LookupM ℕ
  | [], _ => halt "read outside the path"
  | c :: rest, i => if c = '/' then skipSlashes rest (i + 1) else pure i

/-- The string at `path + i`. -/
def stringAt (i : ℕ) : LookupM (List Char) := do
  let mem ← gets Lookup.mem
  require ('\x00' ∈ mem.drop i) "read outside the path"
  return (mem.drop i).takeWhile (· ≠ '\x00')

/-- The part of `getdevice` after the loop; the subpath is given by its index. -/
def getdeviceAt (colon slash : ℤ) : LookupM (ℕ × Vnode) :=
  if colon < 0 ∧ slash ≠ 0 then do
    -- a relative path or just a bare filename
    let startvn ← onNaming vfsGetcurdir
    return (0, startvn)
  else if colon > 0 then do
    -- device:path
    writeChar colon.toNat '\x00'
    let mem ← gets Lookup.mem
    let subpath ← skipSlashes (mem.drop (colon.toNat + 1)) (colon.toNat + 1)
    let devname ← stringAt 0
    let startvn ← onNaming (getrootVnode devname)
    return (subpath, startvn)
  else do
    -- /path or :path
    require (colon = 0 ∨ slash = 0) "Assertion failed: colon==0 || slash==0"
    let c ← readChar 0
    require (c = '/' ∨ c = ':') "Assertion failed: path[0]==':'"
    let startvn ← onNaming (if c = '/' then getbootfs else getcurroot)
    let mem ← gets Lookup.mem
    let subpath ← skipSlashes (mem.drop 1) 1
    return (subpath, startvn)

/-- `getdevice`. -/
def getdevice : LookupM (ℕ × Vnode) := do
  let mem ← gets Lookup.mem
  let found ← locate mem 0
  getdeviceAt found.1 found.2

section Operations

variable {ω : Type} (vopLookup : Vnode → List Char → NamingM Vnode)
  (vopLookparent : Vnode → List Char → NamingM ω)

/-- `vfs_lookup`. -/
def vfsLookup : LookupM Vnode := do
  let (subpath, startvn) ← getdevice
  let path ← stringAt subpath
  if path.length = 0 then
    return startvn
  else
    let result ← attempt (onNaming (vopLookup startvn path))
    onNaming (vnodeDecref startvn)
    ofExcept result

/-- `vfs_lookparent`. The result of `VOP_LOOKPARENT` is a vnode and a name in a buffer. -/
def vfsLookparent : LookupM ω := do
  let (subpath, startvn) ← getdevice
  let path ← stringAt subpath
  if path.length = 0 then
    onNaming (vnodeDecref startvn)
    fail .EINVAL
  else
    let result ← attempt (onNaming (vopLookparent startvn path))
    onNaming (vnodeDecref startvn)
    ofExcept result

end Operations

/-! ## What paths mean -/

/-- Where a lookup starts. -/
inductive Start where
  | device (devname : List Char)
  | bootfs
  | curroot
  | curdir
deriving DecidableEq

/-- The vnode at which a lookup starts. -/
def Start.vnode : Start → NamingM Vnode
  | device devname => getrootVnode devname
  | bootfs => getbootfs
  | curroot => getcurroot
  | curdir => vfsGetcurdir

/-- A path without its leading slashes. -/
def dropSlashes (path : List Char) : List Char := path.dropWhile (· = '/')

/-- `ParsesTo path start sub after`: the lookup of `path` starts from `start` and hands on `sub`;
the characters of the path are `after` then. -/
inductive ParsesTo : List Char → Start → List Char → List Char → Prop where
  /-- `device:path`. -/
  | device {d s : List Char} (hne : d ≠ []) (hcolon : ':' ∉ d) (hslash : '/' ∉ d) :
      ParsesTo (d ++ ':' :: s) (.device d) (dropSlashes s) (d ++ '\x00' :: s)
  /-- `/path`. -/
  | bootfs {s : List Char} : ParsesTo ('/' :: s) .bootfs (dropSlashes s) ('/' :: s)
  /-- `:path`. -/
  | curroot {s : List Char} : ParsesTo (':' :: s) .curroot (dropSlashes s) (':' :: s)
  /-- Any other path. -/
  | curdir {path : List Char} (hdevice : ∀ d s, path = d ++ ':' :: s → d = [] ∨ ':' ∈ d ∨ '/' ∈ d)
      (hbootfs : ∀ s, path ≠ '/' :: s) (hcurroot : ∀ s, path ≠ ':' :: s) :
      ParsesTo path .curdir path path

/-- A lookup from a start: an empty rest means the start itself. -/
def lookupFrom (vopLookup : Vnode → List Char → NamingM Vnode) (start : Start) (sub : List Char) :
    NamingM Vnode := do
  let startvn ← start.vnode
  if sub = [] then
    return startvn
  else
    let result ← attempt (vopLookup startvn sub)
    vnodeDecref startvn
    ofExcept result

/-- The same for a parent; an empty rest has none. -/
def lookparentFrom {ω : Type} (vopLookparent : Vnode → List Char → NamingM ω) (start : Start)
    (sub : List Char) : NamingM ω := do
  let startvn ← start.vnode
  if sub = [] then
    vnodeDecref startvn
    fail .EINVAL
  else
    let result ← attempt (vopLookparent startvn sub)
    vnodeDecref startvn
    ofExcept result

/-! ## The loops -/

variable {path d s r after sub : List Char} {start : Start} {st : Lookup} {i k : ℕ}

/-- The part of a path in front of the first colon or slash, and what comes there. -/
theorem exists_first (path : List Char) : ∃ d, ':' ∉ d ∧ '/' ∉ d ∧
    (path = d ∨ (∃ s, path = d ++ ':' :: s) ∨ ∃ s, path = d ++ '/' :: s) := by
  induction path with
  | nil => exact ⟨[], List.not_mem_nil, List.not_mem_nil, .inl rfl⟩
  | cons c path ih =>
    by_cases hcolon : c = ':'
    · subst hcolon
      exact ⟨[], List.not_mem_nil, List.not_mem_nil, .inr (.inl ⟨path, rfl⟩)⟩
    by_cases hslash : c = '/'
    · subst hslash
      exact ⟨[], List.not_mem_nil, List.not_mem_nil, .inr (.inr ⟨path, rfl⟩)⟩
    obtain ⟨d, hd, hd', hpath⟩ := ih
    refine ⟨c :: d, ?_, ?_, ?_⟩
    · rw [List.mem_cons, not_or]
      exact ⟨Ne.symm hcolon, hd⟩
    · rw [List.mem_cons, not_or]
      exact ⟨Ne.symm hslash, hd'⟩
    · rcases hpath with rfl | ⟨s, rfl⟩ | ⟨s, rfl⟩
      · exact .inl rfl
      · exact .inr (.inl ⟨s, rfl⟩)
      · exact .inr (.inr ⟨s, rfl⟩)

/-- The loop goes over ordinary characters. -/
theorem locate_append (hnul : '\x00' ∉ d) (hcolon : ':' ∉ d) (hslash : '/' ∉ d) :
    locate (d ++ r) i = locate r (i + d.length) := by
  induction d generalizing i with
  | nil => rfl
  | cons c d ih =>
    simp only [List.mem_cons, not_or] at hnul hcolon hslash
    rw [List.cons_append, locate, if_neg (Ne.symm hnul.1), if_neg (Ne.symm hcolon.1),
      if_neg (Ne.symm hslash.1), ih hnul.2 hcolon.2 hslash.2, List.length_cons,
      Nat.add_right_comm, Nat.add_assoc]

/-- The slashes that the loop skips. -/
theorem skipSlashes_eq (hnul : '\x00' ∉ s) (i : ℕ) :
    ∃ n, skipSlashes (s ++ ['\x00']) i = pure (i + n) ∧ s.drop n = dropSlashes s ∧ n ≤ s.length := by
  induction s generalizing i with
  | nil => exact ⟨0, rfl, rfl, le_rfl⟩
  | cons c s ih =>
    rw [List.mem_cons, not_or] at hnul
    by_cases hslash : c = '/'
    · obtain ⟨n, hskip, hdrop, hle⟩ := ih hnul.2 (i + 1)
      refine ⟨n + 1, ?_, ?_, Nat.succ_le_succ hle⟩
      · rw [List.cons_append, skipSlashes, if_pos hslash, hskip, Nat.add_right_comm, Nat.add_assoc]
      · rw [List.drop_succ_cons, hdrop, dropSlashes, dropSlashes,
          List.dropWhile_cons_of_pos (by simpa using hslash)]
    · refine ⟨0, ?_, ?_, Nat.zero_le _⟩
      · rw [List.cons_append, skipSlashes, if_neg hslash, Nat.add_zero]
      · rw [dropSlashes, List.dropWhile_cons_of_neg (by simpa using hslash), List.drop_zero]

/-- The string up to the NUL. -/
theorem stringAt_eq (hmem : st.mem.drop i = s ++ '\x00' :: r) (hnul : '\x00' ∉ s) :
    stringAt i st = .ok s st := by
  have hin : '\x00' ∈ st.mem.drop i := by
    rw [hmem]
    exact List.mem_append_right _ List.mem_cons_self
  have htake : (st.mem.drop i).takeWhile (· ≠ '\x00') = s := by
    have hall : ∀ c ∈ s, decide (c ≠ '\x00') = true := fun c hc =>
      decide_eq_true fun hc' => hnul (hc' ▸ hc)
    rw [hmem, List.takeWhile_append_of_pos hall, List.takeWhile_cons_of_neg (by decide),
      List.append_nil]
  show (require ('\x00' ∈ st.mem.drop i) _ >>= fun _ =>
    pure ((st.mem.drop i).takeWhile (· ≠ '\x00'))) st = _
  rw [require, if_pos hin, htake]
  rfl

/-! ## `getdevice` -/

theorem onNaming_maps {α : Type} (m : NamingM α) (mem : List Char) :
    Maps (Lookup.mk mem) m (onNaming m) := by
  intro nm
  rw [onNaming, zoom]
  cases m nm <;> rfl

/-- Steps that look at the memory first. -/
theorem maps_bind_of_eq_ok {α β : Type} {mem : List Char} {m : LookupM α} {a : α}
    {f : α → LookupM β} {m' : NamingM β} (hm : ∀ nm, m ⟨mem, nm⟩ = .ok a ⟨mem, nm⟩)
    (hf : Maps (Lookup.mk mem) m' (f a)) : Maps (Lookup.mk mem) m' (m >>= f) := by
  intro nm
  show Prog.bind m f _ = _
  rw [Prog.bind, hm]
  exact hf nm

/-- `/path` and `:path`: the start is chosen by the first character, and slashes behind it are
skipped. -/
theorem getdeviceAt_leading {c : Char} {colon slash : ℤ} (hc : c = '/' ∨ c = ':')
    (hnul : '\x00' ∉ s) (hnone : ¬ (colon < 0 ∧ slash ≠ 0)) (hpos : ¬ colon > 0)
    (hzero : colon = 0 ∨ slash = 0) :
    ∃ k, (c :: s ++ ['\x00']).drop k = dropSlashes s ++ ['\x00'] ∧
      Maps (Lookup.mk (c :: s ++ ['\x00']))
        ((if c = '/' then getbootfs else getcurroot) >>= fun startvn => pure (k, startvn))
        (getdeviceAt colon slash) := by
  obtain ⟨n, hskip, hdrop, hle⟩ := skipSlashes_eq hnul 1
  refine ⟨1 + n, ?_, ?_⟩
  · rw [Nat.add_comm, List.cons_append, List.drop_succ_cons, List.drop_append_of_le_length hle, hdrop]
  · rw [getdeviceAt, if_neg hnone, if_neg hpos]
    refine maps_bind_of_eq_ok (a := ()) (fun nm => by rw [require, if_pos hzero]; rfl) ?_
    refine maps_bind_of_eq_ok (a := c) (fun nm => rfl) ?_
    refine maps_bind_of_eq_ok (a := ()) (fun nm => by rw [require, if_pos hc]; rfl) ?_
    refine Maps.bind (onNaming_maps _ _) fun startvn => ?_
    refine maps_bind_of_eq_ok (fun nm => rfl) ?_
    exact maps_bind_of_eq_ok (fun nm => congrFun hskip _) (Maps.pure _)

/-- `device:path`: the colon is overwritten and the device asked for is the part in front of it. -/
theorem getdeviceAt_device (hne : d ≠ []) (hd : '\x00' ∉ d) (hs : '\x00' ∉ s) :
    ∃ k, (d ++ '\x00' :: s ++ ['\x00']).drop k = dropSlashes s ++ ['\x00'] ∧
      ∀ nm, getdeviceAt d.length (-1) ⟨d ++ ':' :: s ++ ['\x00'], nm⟩ =
        mapState (Lookup.mk (d ++ '\x00' :: s ++ ['\x00']))
          ((getrootVnode d >>= fun startvn => pure (k, startvn)) nm) := by
  have hpos : 0 < d.length := List.length_pos_of_ne_nil hne
  obtain ⟨n, hskip, hdrop, hle⟩ := skipSlashes_eq hs (d.length + 1)
  have hrest : (d ++ '\x00' :: s ++ ['\x00']).drop (d.length + 1) = s ++ ['\x00'] := by
    rw [List.append_assoc, ← List.drop_drop, List.drop_left]
    rfl
  refine ⟨d.length + 1 + n, ?_, ?_⟩
  · rw [← List.drop_drop, hrest, List.drop_append_of_le_length hle, hdrop]
  · intro nm
    have hwrite : writeChar d.length '\x00' ⟨d ++ ':' :: s ++ ['\x00'], nm⟩ =
        .ok () ⟨d ++ '\x00' :: s ++ ['\x00'], nm⟩ := by
      have hset : (d ++ ':' :: s ++ ['\x00']).set d.length '\x00' = d ++ '\x00' :: s ++ ['\x00'] := by
        rw [List.append_assoc, List.set_append_right _ _ le_rfl, Nat.sub_self, List.append_assoc]
        rfl
      have hlen : d.length < (d ++ ':' :: s ++ ['\x00']).length := by
        simp only [List.length_append, List.length_cons]
        omega
      show (require (d.length < (d ++ ':' :: s ++ ['\x00']).length) _ >>= fun _ => _) _ = _
      rw [require, if_pos hlen, ← hset]
      rfl
    have htail : Maps (Lookup.mk (d ++ '\x00' :: s ++ ['\x00']))
        (getrootVnode d >>= fun startvn => pure (d.length + 1 + n, startvn)) (do
          let mem ← gets Lookup.mem
          let subpath ← skipSlashes (mem.drop (d.length + 1)) (d.length + 1)
          let devname ← stringAt 0
          let startvn ← onNaming (getrootVnode devname)
          return (subpath, startvn)) := by
      refine maps_bind_of_eq_ok (a := d ++ '\x00' :: s ++ ['\x00']) (fun nm => rfl) ?_
      rw [hrest]
      refine maps_bind_of_eq_ok (fun nm => congrFun hskip _) ?_
      refine maps_bind_of_eq_ok (fun nm => stringAt_eq (List.append_assoc _ _ _) hd) ?_
      exact Maps.bind (onNaming_maps _ _) fun _ => Maps.pure _
    rw [getdeviceAt, if_neg (by omega), if_pos (by omega), Int.toNat_natCast]
    show Prog.bind (writeChar d.length '\x00') _ _ = _
    rw [Prog.bind, hwrite]
    exact htail nm

/-- **What `getdevice` does.** It finds the vnode to start from, the rest of the path is at some
index, and the memory of the path is as it should be. -/
theorem getdevice_eq (h : ParsesTo path start sub after) (hnul : '\x00' ∉ path) :
    ∃ k, (after ++ ['\x00']).drop k = sub ++ ['\x00'] ∧
      ∀ nm, getdevice ⟨path ++ ['\x00'], nm⟩ = mapState (Lookup.mk (after ++ ['\x00']))
        ((start.vnode >>= fun startvn => pure (k, startvn)) nm) := by
  have hlocated : ∀ {colon slash : ℤ} (nm : Naming),
      locate (path ++ ['\x00']) 0 = pure (colon, slash) →
      getdevice ⟨path ++ ['\x00'], nm⟩ = getdeviceAt colon slash ⟨path ++ ['\x00'], nm⟩ := by
    intro colon slash nm hloc
    show Prog.bind (locate (path ++ ['\x00']) 0) (fun found => getdeviceAt found.1 found.2) _ = _
    rw [Prog.bind, hloc]
    rfl
  cases h with
  | @device d s hne hcolon hslash =>
    rw [List.mem_append, List.mem_cons, not_or, not_or] at hnul
    obtain ⟨k, hdrop, hrun⟩ := getdeviceAt_device hne hnul.1 hnul.2.2
    refine ⟨k, hdrop, fun nm => ?_⟩
    have hloc : locate (d ++ ':' :: s ++ ['\x00']) 0 = pure ((d.length : ℤ), -1) := by
      rw [List.append_assoc, locate_append hnul.1 hcolon hslash, Nat.zero_add]
      rfl
    rw [hlocated nm hloc]
    exact hrun nm
  | @bootfs s =>
    rw [List.mem_cons, not_or] at hnul
    have hnone : ¬ ((-1 : ℤ) < 0 ∧ (0 : ℤ) ≠ 0) := by decide
    obtain ⟨k, hdrop, hmaps⟩ := getdeviceAt_leading (.inl rfl) hnul.2 hnone (by decide) (.inr rfl)
    refine ⟨k, hdrop, fun nm => ?_⟩
    rw [hlocated nm rfl]
    exact hmaps nm
  | @curroot s =>
    rw [List.mem_cons, not_or] at hnul
    have hnone : ¬ ((0 : ℤ) < 0 ∧ (-1 : ℤ) ≠ 0) := by decide
    obtain ⟨k, hdrop, hmaps⟩ := getdeviceAt_leading (.inr rfl) hnul.2 hnone (by decide) (.inl rfl)
    refine ⟨k, hdrop, fun nm => ?_⟩
    rw [hlocated nm rfl]
    exact hmaps nm
  | curdir hdevice hbootfs hcurroot =>
    refine ⟨0, rfl, fun nm => ?_⟩
    obtain ⟨slash, hslash, hloc⟩ : ∃ slash : ℤ, slash ≠ 0 ∧
        locate (path ++ ['\x00']) 0 = pure (-1, slash) := by
      obtain ⟨d, hd, hd', rfl | ⟨s, rfl⟩ | ⟨s, rfl⟩⟩ := exists_first path
      · refine ⟨-1, by decide, ?_⟩
        rw [locate_append hnul hd hd']
        rfl
      · rcases hdevice d s rfl with rfl | h | h
        · exact absurd rfl (hcurroot s)
        · exact absurd h hd
        · exact absurd h hd'
      · rw [List.mem_append, not_or] at hnul
        refine ⟨d.length, fun hzero => ?_, ?_⟩
        · obtain rfl : d = [] := List.length_eq_zero_iff.mp (by omega)
          exact hbootfs s rfl
        · rw [List.append_assoc, locate_append hnul.1 hd hd', Nat.zero_add]
          rfl
    rw [hlocated nm hloc, getdeviceAt, if_pos ⟨by decide, hslash⟩]
    exact Maps.bind (onNaming_maps _ _) (fun _ => Maps.pure _) nm

/-! ## The translation -/

/-- Nothing is taken into the rest of a path that is not in the path. -/
theorem ParsesTo.nul_not_mem (h : ParsesTo path start sub after) (hnul : '\x00' ∉ path) :
    '\x00' ∉ sub := by
  have hdrop : ∀ s : List Char, '\x00' ∉ s → '\x00' ∉ dropSlashes s := fun s hs hmem =>
    hs ((List.dropWhile_suffix _).subset hmem)
  cases h with
  | device =>
    rw [List.mem_append, List.mem_cons, not_or, not_or] at hnul
    exact hdrop _ hnul.2.2
  | bootfs =>
    rw [List.mem_cons, not_or] at hnul
    exact hdrop _ hnul.2
  | curroot =>
    rw [List.mem_cons, not_or] at hnul
    exact hdrop _ hnul.2
  | curdir => exact hnul

/-- Every path has a meaning. -/
theorem exists_parsesTo (path : List Char) : ∃ start sub after, ParsesTo path start sub after := by
  by_cases hdevice : ∃ d s, path = d ++ ':' :: s ∧ d ≠ [] ∧ ':' ∉ d ∧ '/' ∉ d
  · obtain ⟨d, s, rfl, hne, hcolon, hslash⟩ := hdevice
    exact ⟨_, _, _, .device hne hcolon hslash⟩
  by_cases hbootfs : ∃ s, path = '/' :: s
  · obtain ⟨s, rfl⟩ := hbootfs
    exact ⟨_, _, _, .bootfs⟩
  by_cases hcurroot : ∃ s, path = ':' :: s
  · obtain ⟨s, rfl⟩ := hcurroot
    exact ⟨_, _, _, .curroot⟩
  refine ⟨_, _, _, .curdir (fun d s hpath => ?_) (fun s hs => hbootfs ⟨s, hs⟩)
    fun s hs => hcurroot ⟨s, hs⟩⟩
  by_contra hnone
  rw [not_or, not_or] at hnone
  exact hdevice ⟨d, s, hpath, hnone⟩

/-- What follows `getdevice`, for both functions: a step on the rest of the path. -/
theorem run_getdevice {α : Type} {f : ℕ × Vnode → LookupM α} {g : Vnode → NamingM α}
    (h : ParsesTo path start sub after) (hnul : '\x00' ∉ path)
    (hfg : ∀ k startvn, (∀ nm, stringAt k ⟨after ++ ['\x00'], nm⟩ = .ok sub ⟨after ++ ['\x00'], nm⟩) →
      Maps (Lookup.mk (after ++ ['\x00'])) (g startvn) (f (k, startvn))) (nm : Naming) :
    (getdevice >>= f) ⟨path ++ ['\x00'], nm⟩ =
      mapState (Lookup.mk (after ++ ['\x00'])) ((start.vnode >>= g) nm) := by
  obtain ⟨k, hdrop, hrun⟩ := getdevice_eq h hnul
  have hstring : ∀ nm, stringAt k ⟨after ++ ['\x00'], nm⟩ = .ok sub ⟨after ++ ['\x00'], nm⟩ :=
    fun nm => stringAt_eq hdrop (h.nul_not_mem hnul)
  show Prog.bind getdevice f _ = mapState _ (Prog.bind start.vnode g nm)
  rw [Prog.bind, Prog.bind, hrun nm]
  simp only [bind, Prog.bind]
  cases start.vnode nm with
  | ok startvn nm' => exact hfg k startvn hstring nm'
  | err e nm' => rfl
  | halted msg => rfl

/-- **Path prefixes are parsed as documented.** -/
theorem lookup_parses {ω : Type} (vopLookup : Vnode → List Char → NamingM Vnode)
    (vopLookparent : Vnode → List Char → NamingM ω) (path : List Char) (hnul : '\x00' ∉ path) :
    (∃ start sub after, ParsesTo path start sub after) ∧
    ∀ start sub after, ParsesTo path start sub after → ∀ nm,
      vfsLookup vopLookup ⟨path ++ ['\x00'], nm⟩ =
        mapState (Lookup.mk (after ++ ['\x00'])) (lookupFrom vopLookup start sub nm) ∧
      vfsLookparent vopLookparent ⟨path ++ ['\x00'], nm⟩ =
        mapState (Lookup.mk (after ++ ['\x00'])) (lookparentFrom vopLookparent start sub nm) := by
  refine ⟨exists_parsesTo path, fun start sub after h nm => ⟨?_, ?_⟩⟩
  · refine run_getdevice h hnul (fun k startvn hstring => maps_bind_of_eq_ok hstring ?_) nm
    simp only [List.length_eq_zero_iff]
    refine Maps.ite _ (Maps.pure _) (Maps.bind (Maps.attempt (onNaming_maps _ _)) fun result => ?_)
    exact Maps.bind (onNaming_maps _ _) fun _ => Maps.ofExcept result
  · refine run_getdevice h hnul (fun k startvn hstring => maps_bind_of_eq_ok hstring ?_) nm
    simp only [List.length_eq_zero_iff]
    refine Maps.ite _ (Maps.bind (onNaming_maps _ _) fun _ => Maps.fail _) ?_
    refine Maps.bind (Maps.attempt (onNaming_maps _ _)) fun result => ?_
    exact Maps.bind (onNaming_maps _ _) fun _ => Maps.ofExcept result

/-- No devices; the current directory is in a file system. -/
def sampleNaming : Naming where
  vfs := boot []
  bootfsVnode := none
  tCwd := some (.file ⟨0, some "lhd0"⟩ 7)
  refcount := fun _ => 1

/-- The path `:/etc`. -/
theorem lookup_parses_sample :
    '\x00' ∉ [':', '/', 'e', 't', 'c'] ∧
      vfsLookup (fun vn _ => pure vn) ⟨[':', '/', 'e', 't', 'c', '\x00'], sampleNaming⟩ =
        mapState (Lookup.mk [':', '/', 'e', 't', 'c', '\x00'])
          (lookupFrom (fun vn _ => pure vn) .curroot ['e', 't', 'c'] sampleNaming) :=
  ⟨by decide, ((lookup_parses (fun vn _ => pure vn) (fun vn _ => pure vn)
    [':', '/', 'e', 't', 'c'] (by decide)).2 _ _ _ .curroot sampleNaming).1⟩

end Os161.Vfslist
