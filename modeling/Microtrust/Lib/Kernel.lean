/-
The kernel under a file-serving process: descriptors, a tree of names,
file contents, and which changes have reached the disk.

The environment decides whether a call succeeds (`Reply`); the kernel
decides what a successful call does. A call that cannot succeed (a closed
descriptor, a missing name) fails whatever the reply says. A reply is the
answer after any interrupted tries.

Every change to a file or to a directory's entries is logged in `made` and
stays in `pending` until a sync covers it: `fsync` of a file its data,
`fsync` of a directory its entries, `syncfs` whatever is on the file system
(or device) behind the descriptor. `O_SYNC` is accepted and nothing is
drawn from it. Links are not modelled: a place in the tree is the list of
the names from the root to it, so `..` drops the last.
-/
import Microtrust.Lib.Bytes

namespace Lib

/-- The value a failed call leaves in `errno`. -/
structure Errno where
  code : Nat
  pos : 0 < code
deriving DecidableEq

namespace Errno

def EPERM : Errno := ⟨1, by decide⟩
def ENOENT : Errno := ⟨2, by decide⟩
def EINTR : Errno := ⟨4, by decide⟩
/-- `EIO`. -/
def ioErr : Errno := ⟨5, by decide⟩
def EBADF : Errno := ⟨9, by decide⟩
def EAGAIN : Errno := ⟨11, by decide⟩
def ENOMEM : Errno := ⟨12, by decide⟩
def EACCES : Errno := ⟨13, by decide⟩
def EBUSY : Errno := ⟨16, by decide⟩
def EEXIST : Errno := ⟨17, by decide⟩
def ENODEV : Errno := ⟨19, by decide⟩
def ENOTDIR : Errno := ⟨20, by decide⟩
def EISDIR : Errno := ⟨21, by decide⟩
def EINVAL : Errno := ⟨22, by decide⟩
def EMFILE : Errno := ⟨24, by decide⟩
def ENAMETOOLONG : Errno := ⟨36, by decide⟩
def EOVERFLOW : Errno := ⟨75, by decide⟩
def EMSGSIZE : Errno := ⟨90, by decide⟩
def ECANCELED : Errno := ⟨125, by decide⟩

/-- `-errno`. -/
def neg (e : Errno) : Int := -(e.code : Int)

theorem neg_lt (e : Errno) : e.neg < 0 := by
  have hpos := e.pos
  unfold neg
  omega

end Errno

/-- The environment's answer to a call: an error, or success with a number
(how many bytes a transfer moves, where a mapping lies). -/
abbrev Reply := Except Errno Nat

/-- The calls the environment answers. -/
inductive Syscall where
  | open (path : Bytes)
  | close (fd : Int)
  | pread (fd : Int) (len : Nat) (off : Int)
  | pwrite (fd : Int) (len : Nat) (off : Int)
  | ftruncate (fd : Int) (len : Int)
  | fstat (fd : Int)
  | fsync (fd : Int)
  | syncfs (fd : Int)
  | unlink (path : Bytes)
  | mkdir (path : Bytes)
  | writev (fd : Int)
  | ioctl (fd : Int)
  | alloc (size : Nat)

/-! ## Paths -/

abbrev Path := List Bytes

/-- One component further from directory `d`. -/
def walk (d : Path) (c : Bytes) : Path :=
  if c = [] ∨ c = [46] then d else if c = [46, 46] then d.dropLast else d ++ [c]

/-- What a name in the tree stands for. A block device carries the number
of the device behind it. -/
inductive Node where
  | file (ino : Nat)
  | blk (ino dev : Nat)
  | dir
  | chr
deriving DecidableEq

/-- What a descriptor refers to. -/
inductive Obj where
  | file (ino : Nat)
  | blk (ino : Nat)
  | dir (path : Path)
  | chr
deriving DecidableEq

def Node.obj (p : Path) : Node → Obj
  | .file ino => .file ino
  | .blk ino _ => .blk ino
  | .dir => .dir p
  | .chr => .chr

/-- An open file description. `oid` numbers the `open` that made it. -/
structure Desc where
  obj : Obj
  fs : Nat
  oid : Nat
  rdwr : Bool
deriving DecidableEq

/-- What a change is a change of: a file's data, or a directory's entries. -/
inductive Target where
  | data (ino fs : Nat)
  | entry (dir : Path) (fs : Nat)
deriving DecidableEq

def Target.fs : Target → Nat
  | .data _ fs => fs
  | .entry _ fs => fs

/-- A change, and the `open` through which it was made (none for a name
that is unlinked or made a directory). -/
structure Change where
  id : Nat
  target : Target
  oid : Option Nat
deriving DecidableEq

/-- Whether an `fsync` of the description makes the change durable. -/
def Desc.syncs (d : Desc) (c : Change) : Bool :=
  match d.obj, c.target with
  | .file ino, .data i _ => i == ino
  | .blk ino, .data i _ => i == ino
  | .dir p, .entry q _ => q == p
  | _, _ => false

structure OpenFlags where
  rdwr : Bool
  sync : Bool
  creat : Bool
  excl : Bool
  trunc : Bool

structure Kernel where
  fds : Nat → Option Desc
  /-- Descriptors are below `limit`, and fit an `int`. -/
  limit : Nat
  limit_le : limit ≤ 2 ^ 31
  tree : Path → Option Node
  /-- The file system a directory is on. -/
  fsOf : Path → Nat
  data : Nat → Bytes
  nextIno : Nat
  nextOid : Nat
  made : List Change
  pending : List Change

namespace Kernel

/-- The description behind an `int` descriptor. -/
def desc (k : Kernel) (fd : Int) : Option Desc := if fd < 0 then none else k.fds fd.toNat

/-- The lowest descriptor not in use, which `open` takes. -/
def lowest (k : Kernel) : Option Nat := (List.range k.limit).find? fun n => (k.fds n).isNone

def node (k : Kernel) (p : Path) : Option Node := if p = [] then some .dir else k.tree p

/-- Where the components lead from `d`: each is looked up in a directory. -/
def locateFrom (k : Kernel) : Path → List Bytes → Except Errno Path
  | d, [] => .ok d
  | d, c :: cs =>
    match k.node d with
    | some .dir => locateFrom k (walk d c) cs
    | some _ => .error .ENOTDIR
    | none => .error .ENOENT

/-- The place a path names (also a relative one: the process runs in `/`).
A trailing slash asks for a directory: with one, a name that is not there is
`ENOENT` also when it is to be made, where Linux says `EISDIR`. There are no
symbolic links. -/
def locate (k : Kernel) (s : Bytes) : Except Errno Path :=
  if s = [] then .error .ENOENT else k.locateFrom [] (s.splitOn 47)

/-- The file system or device a node at `p` lives on. -/
def nodeFs (k : Kernel) (p : Path) : Node → Nat
  | .file _ => k.fsOf p.dropLast
  | .blk _ dev => dev
  | .dir => k.fsOf p
  | .chr => k.fsOf p.dropLast

def log (k : Kernel) (t : Target) (oid : Option Nat) : Kernel :=
  let c : Change := ⟨k.made.length, t, oid⟩
  { k with made := k.made ++ [c], pending := k.pending ++ [c] }

/-- The changes `p` holds of reach the disk. -/
def settle (k : Kernel) (p : Change → Bool) : Kernel :=
  { k with pending := k.pending.filter fun c => !p c }

/-! ## The calls -/

def install (k : Kernel) (n : Nat) (d : Desc) : Except Errno Nat × Kernel :=
  (.ok n, { k with fds := Function.update k.fds n (some d), nextOid := k.nextOid + 1 })

/-- `open` of a name that is there. -/
def openNode (k : Kernel) (n : Nat) (p : Path) (fl : OpenFlags) (nd : Node) : Except Errno Nat × Kernel :=
  if fl.creat && fl.excl then (.error .EEXIST, k)
  else if nd = .dir && (fl.rdwr || fl.creat) then (.error .EISDIR, k)
  else
    let (r, k') := k.install n ⟨nd.obj p, k.nodeFs p nd, k.nextOid, fl.rdwr⟩
    match nd with
    | .file ino =>
      if fl.trunc && fl.rdwr then
        (r, { k' with data := Function.update k'.data ino [] }.log
          (.data ino (k.nodeFs p nd)) (some k.nextOid))
      else (r, k')
    | _ => (r, k')

/-- `open` of a name that is not there. -/
def openNew (k : Kernel) (n : Nat) (p : Path) (fl : OpenFlags) : Except Errno Nat × Kernel :=
  if !fl.creat then (.error .ENOENT, k)
  else
    let fs := k.fsOf p.dropLast
    let (r, k') := k.install n ⟨.file k.nextIno, fs, k.nextOid, fl.rdwr⟩
    (r, { k' with
      tree := Function.update k'.tree p (some (.file k.nextIno))
      data := Function.update k'.data k.nextIno []
      nextIno := k.nextIno + 1 }.log (.entry p.dropLast fs) (some k.nextOid))

def openPath (k : Kernel) (r : Reply) (path : Bytes) (fl : OpenFlags) : Except Errno Nat × Kernel :=
  match r with
  | .error e => (.error e, k)
  | .ok _ =>
    match k.lowest with
    | none => (.error .EMFILE, k)
    | some n =>
      match k.locate path with
      | .error e => (.error e, k)
      | .ok p =>
        match k.node p with
        | some nd => k.openNode n p fl nd
        | none => k.openNew n p fl

def release (k : Kernel) (n : Nat) : Kernel := { k with fds := Function.update k.fds n none }

/-- The descriptor is released even when `close` reports an error. -/
def close (k : Kernel) (r : Reply) (fd : Int) : Except Errno Unit × Kernel :=
  match k.desc fd, r with
  | none, _ => (.error .EBADF, k)
  | some _, .error e => (.error e, k.release fd.toNat)
  | some _, .ok _ => (.ok (), k.release fd.toNat)

/-- A character device has no content here: reading it finds its end. -/
def pread (k : Kernel) (r : Reply) (fd : Int) (len : Nat) (off : Int) : Except Errno Bytes :=
  match k.desc fd with
  | none => .error .EBADF
  | some d =>
    match d.obj, r with
    | .dir _, _ => .error .EISDIR
    | _, .error e => .error e
    | .chr, .ok _ => .ok []
    | .file ino, .ok n | .blk ino, .ok n =>
      if off < 0 then .error .EINVAL
      else .ok ((((k.data ino).drop off.toNat).take len).take (max n 1))

/-- Transfers at least one byte and at most what is asked. -/
def pwrite (k : Kernel) (r : Reply) (fd : Int) (buf : Bytes) (off : Int) : Except Errno Nat × Kernel :=
  match k.desc fd with
  | none => (.error .EBADF, k)
  | some d =>
    if !d.rdwr then (.error .EBADF, k)
    else match r with
      | .error e => (.error e, k)
      | .ok n =>
        let m := min (max n 1) buf.length
        match d.obj with
        | .dir _ => (.error .EISDIR, k)
        | .chr => (.ok m, k)
        | .file ino | .blk ino =>
          if off < 0 then (.error .EINVAL, k)
          else (.ok m, { k with
            data := Function.update k.data ino (splice (k.data ino) off.toNat (buf.take m)) }.log
              (.data ino d.fs) (some d.oid))

/-- Only a regular file open for writing has a length to set. -/
def ftruncate (k : Kernel) (r : Reply) (fd : Int) (len : Int) : Except Errno Unit × Kernel :=
  match k.desc fd with
  | none => (.error .EBADF, k)
  | some d =>
    match d.obj with
    | .file ino =>
      if !d.rdwr || len < 0 then (.error .EINVAL, k)
      else match r with
        | .error e => (.error e, k)
        | .ok _ =>
          let old := k.data ino
          let new := old.take len.toNat ++ List.replicate (len.toNat - old.length) 0
          (.ok (), { k with data := Function.update k.data ino new }.log (.data ino d.fs) (some d.oid))
    | _ => (.error .EINVAL, k)

/-- The size `fstat` reports: a regular file's length. For a directory, whose size is
up to its file system, it is 0 here. -/
def fstat (k : Kernel) (r : Reply) (fd : Int) : Except Errno Nat :=
  match k.desc fd, r with
  | none, _ => .error .EBADF
  | some _, .error e => .error e
  | some d, .ok _ =>
    match d.obj with
    | .file ino => .ok (k.data ino).length
    | _ => .ok 0

def fsync (k : Kernel) (r : Reply) (fd : Int) : Except Errno Unit × Kernel :=
  match k.desc fd, r with
  | none, _ => (.error .EBADF, k)
  | some _, .error e => (.error e, k)
  | some d, .ok _ => (.ok (), k.settle d.syncs)

def syncfs (k : Kernel) (r : Reply) (fd : Int) : Except Errno Unit × Kernel :=
  match k.desc fd, r with
  | none, _ => (.error .EBADF, k)
  | some _, .error e => (.error e, k)
  | some d, .ok _ => (.ok (), k.settle fun c => c.target.fs == d.fs)

def unlink (k : Kernel) (r : Reply) (path : Bytes) : Except Errno Unit × Kernel :=
  match r, k.locate path with
  | .error e, _ => (.error e, k)
  | .ok _, .error e => (.error e, k)
  | .ok _, .ok p =>
    match k.node p with
    | none => (.error .ENOENT, k)
    | some .dir => (.error .EISDIR, k)
    | some _ =>
      (.ok (), { k with tree := Function.update k.tree p none }.log (.entry p.dropLast (k.fsOf p.dropLast)) none)

/-- A trailing slash is allowed in the name of a directory to be made. -/
def mkdir (k : Kernel) (r : Reply) (path : Bytes) : Except Errno Unit × Kernel :=
  match r, k.locate (path.rdropWhile (· == 47)) with
  | .error e, _ => (.error e, k)
  | .ok _, .error e => (.error e, k)
  | .ok _, .ok p =>
    match k.node p with
    | some _ => (.error .EEXIST, k)
    | none =>
      (.ok (), { k with tree := Function.update k.tree p (some .dir) }.log
        (.entry p.dropLast (k.fsOf p.dropLast)) none)

end Kernel

end Lib
