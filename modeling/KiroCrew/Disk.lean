import KiroCrew.Engine

/-!
# A disk with mounts

The file system of `FileSystem` as the calls of a restore see it, with the errors of renames that
leave a mount and of removals of a mount point. Which renames do and which directories are mount
points is any table (`Mounts`).
-/

namespace KiroCrew

structure Mounts where
  /-- The rename fails with `EXDEV`. -/
  crosses : Path → Path → Bool
  /-- The removal fails with `EBUSY`. -/
  isPoint : Path → Bool

/-- One file system. -/
def Mounts.none : Mounts where
  crosses := fun _ _ => false
  isPoint := fun _ => false

namespace FileSystem

/-- `os.unlink` -/
def unlink (fs : FileSystem) (p : Path) : Option FileSystem :=
  if (fs.node p).any fun n => !n.isDirectory then some ((fs.removed p).touch p.dropLast) else none

/-- `os.rmdir` -/
def rmdir (fs : FileSystem) (p : Path) : Option FileSystem :=
  if fs.isDirectory p && (fs.iterdir p).isEmpty then some ((fs.removed p).touch p.dropLast)
    else none

/-- `os.mkdir`; the workspace itself is made with its parents. -/
def makeDir (fs : FileSystem) (p : Path) : Option FileSystem :=
  if p = [] then (if fs.node [] = none then some (fs.put [] (.directory fs.dirMode fs.now))
    else none) else fs.mkdir p

/-- `shutil.copystat`: mode and time, of a link its time. -/
def copystat (fs : FileSystem) (source destination : Path) : Option FileSystem :=
  match fs.node source with
  | some (.symlink _ mtimeNs _) => fs.utime destination mtimeNs
  | some n => (fs.chmod destination n.mode).bind fun fs => fs.utime destination n.mtimeNs
  | none => none

/-- The names lie below this depth. -/
def depth (fs : FileSystem) : Nat := (fs.names.map List.length).foldr max 0 + 1

def refusing (errno : Errno) (f : FileSystem → Option FileSystem) :
    Act FileSystem OSError Unit := fun fs =>
  match f fs with
  | some fs' => (fs', .ok ())
  | none => (fs, .error { errno := errno })

/-- A file that is not there, or something in the way. -/
def errnoAt (fs : FileSystem) (p : Path) : Errno := if fs.node p = none then .missing else .other

def disk (mounts : Mounts) : Os FileSystem where
  call := fun c =>
    match c with
    | .mkdir p => fun fs => refusing (fs.errnoAt p.dropLast) (·.makeDir p) fs
    | .symlink target p => refusing .other (·.symlink target p)
    | .openWrite p => refusing .other (·.openWrite p)
    | .write p data => refusing .other (·.write p data)
    | .chmod p mode => refusing .other (·.chmod p mode)
    | .utime p mtimeNs _ => refusing .other (·.utime p mtimeNs)
    | .copystat source destination _ => refusing .other (·.copystat source destination)
    | .rename source destination => fun fs =>
      if (fs.node source).isSome && mounts.crosses source destination then
        (fs, .error { errno := .crossDevice })
      else refusing (fs.errnoAt source) (·.rename source destination) fs
    | .unlink p => fun fs => refusing (fs.errnoAt p) (·.unlink p) fs
    | .rmdir p => fun fs =>
      if mounts.isPoint p then (fs, .error { errno := .busy }) else refusing (fs.errnoAt p)
        (·.rmdir p) fs
  iterdir := fun p fs => if fs.isDirectory p then (fs, .ok (fs.iterdir p))
    else (fs, .error { errno := fs.errnoAt p })
  read := fun p fs =>
    match fs.node p with
    | some (.file _ _ data) => (fs, .ok data)
    | _ => (fs, .error { errno := fs.errnoAt p })
  readlink := fun p fs =>
    match fs.node p with
    | some (.symlink _ _ target) => (fs, .ok target)
    | _ => (fs, .error { errno := fs.errnoAt p })
  isDir := fun p fs => fs.isDirectory p
  isFile := fun p fs => (fs.node p).any fun n => n.kind = .regular
  isSymlink := fun p fs => (fs.node p).any fun n => n.kind = .symlink
  exists? := fun p fs => fs.exists? p
  depth := fun fs => fs.depth

end FileSystem

end KiroCrew
