import Mathlib.Logic.Function.Basic
import MaiaMeet.OrderedMap
import MaiaMeet.Script
set_option autoImplicit false

/-!
The node installer, from its backup on: the activation of a prepared release, and the rollback
when the activation raises. What the operating system answers to each operation is read from a
tape; the programs it calls stand outside.
-/

namespace MaiaMeet

abbrev Path := List String

structure File where
  content : List UInt8
  mode : Nat
  deriving DecidableEq, Repr

/-- What a symbolic link holds; there is no link to the empty text. -/
abbrev LinkTarget := { target : String // target ≠ "" }

/-- The commands, for the service `maia-meet-signaling` and for nginx. -/
inductive Command where
  | nginxTest | reloadNginx | daemonReload
  | isActive | isEnabled | start | stop | restart | enable | disable
  deriving DecidableEq, Repr

/-- Subclasses of `Exception`; KeyboardInterrupt, which the handler lets pass, is none. -/
inductive PyError where
  | OSError
  | CalledProcessError (command : Command)
  | RuntimeError (message : String)
  | other (name : String)
  deriving DecidableEq, Repr

/-- How an operation comes out: an exception after so much of its effect, or none and a status,
of a process or of HTTP. -/
structure Answer where
  raised : Option (PyError × Nat)
  status : Nat
  deriving DecidableEq, Repr

/-- The machine as the script sees it. `current` is the link of that name; `active` and `enabled`
are what systemd says of the service when the script begins; directories are left out. -/
structure Machine where
  files : Path → Option File
  current : Option LinkTarget
  active : Bool
  enabled : Bool
  asked : List Command
  creationMode : Nat
  tape : List Answer

abbrev Installer := EStateM PyError Machine

namespace Machine

def put (m : Machine) (path : Path) (file : Option File) : Machine :=
  { m with files := Function.update m.files path file }

/-- A file opened for writing keeps its mode if it exists. -/
def write (m : Machine) (path : Path) (content : List UInt8) : Machine :=
  m.put path (some ⟨content,(m.files path).elim m.creationMode File.mode⟩)

/-- A write that stopped: before the file was opened, or after so many bytes. -/
def writeTorn (m : Machine) (path : Path) (content : List UInt8) : Nat → Machine
  | 0 => m
  | k+1 => m.write path (content.take k)

def chmod (m : Machine) (path : Path) (mode : Nat) : Machine :=
  m.put path ((m.files path).map (fun file => { file with mode := mode }))

def link (m : Machine) (target : Option LinkTarget) : Machine := { m with current := target }

def ask (m : Machine) (command : Command) : Machine := { m with asked := m.asked ++ [command] }

end Machine

namespace Installer

def answer : Installer Answer := do
  let m ← get
  match m.tape with
  | [] => pure ⟨none,0⟩
  | a :: tape =>
    modify (fun m => { m with tape := tape })
    pure a

def perform (torn : Nat → Machine → Machine) (done : Machine → Machine) : Installer Unit := do
  let a ← answer
  match a.raised with
  | some (e,k) =>
    modify (torn k)
    throw e
  | none => modify done

/-- An operation on directories, or on the port. -/
def elsewhere : Installer Unit := perform (fun _ m => m) (fun m => m)

def writeText (path : Path) (text : List UInt8) : Installer Unit :=
  perform (fun k m => m.writeTorn path text k) (fun m => m.write path text)

def chmod (path : Path) (mode : Nat) : Installer Unit :=
  perform (fun _ m => m) (fun m => m.chmod path mode)

def unlink (path : Path) : Installer Unit := perform (fun _ m => m) (fun m => m.put path none)

/-- `shutil.copy2`: the content first, then the mode. -/
def copy2 (src dst : Path) : Installer Unit := do
  let m ← get
  match m.files src with
  | none => throw .OSError
  | some file =>
    perform (fun k m => m.writeTorn dst file.content k) (fun m => m.put dst (some file))

def unlinkCurrent : Installer Unit := perform (fun _ m => m) (fun m => m.link none)

def symlinkCurrent (target : LinkTarget) : Installer Unit := do
  let m ← get
  if m.current.isSome then throw .OSError
  else perform (fun _ m => m) (fun m => m.link (some target))

/-- `run`, with `check=True`. -/
def run (command : Command) : Installer Unit := do
  let a ← answer
  match a.raised with
  | some (e,_) => throw e
  | none =>
    modify (fun m => m.ask command)
    if a.status ≠ 0 then throw (.CalledProcessError command) else pure ()

/-- `subprocess.run` without `check`: the status is not looked at. The program is there, as the
script has run it before. -/
def call (command : Command) : Installer Unit := modify (fun m => m.ask command)

/-- `systemctl is-active` exits with 0 if the service is. -/
def isActive : Installer Bool := do
  call .isActive
  let m ← get
  pure m.active

def isEnabled : Installer Bool := do
  call .isEnabled
  let m ← get
  pure m.enabled

/-- The loop of the health check: a response other than 200 and an OSError are tried again. -/
def healthCheck : Nat → Installer Unit
  | 0 => throw (.RuntimeError "Meet health check failed")
  | attempts+1 => do
    let a ← answer
    match a.raised with
    | some (.OSError,_) => healthCheck attempts
    | some (e,_) => throw e
    | none => if a.status = 200 then pure () else healthCheck attempts

/-- An entry of a directory tree: a file, or a directory if there is `none`. -/
def copyEntry (dst : Path) (entry : Path × Option File) : Installer Unit :=
  match entry.2 with
  | none => elsewhere
  | some file => perform (fun k m => m.writeTorn (dst ++ entry.1) file.content k)
      (fun m => m.put (dst ++ entry.1) (some file))

/-- `shutil.copytree` goes on after an OSError and raises at the end. -/
def copytree (dst : Path) : List (Path × Option File) → Bool → Installer Unit
  | [], failed => if failed then throw .OSError else pure ()
  | entry :: tree, failed => do
    let copied ← tryCatch (do copyEntry dst entry; pure true)
      (fun e => if e = .OSError then pure false else throw e)
    copytree dst tree (failed || !copied)

end Installer

def envPath : Path := ["etc","maia-meet","meet.env"]
def unitPath : Path := ["etc","systemd","system","maia-meet-signaling.service"]
def snippet : Path := ["etc","nginx","maia-apps.d","maia-meet.conf"]
def releases : Path := ["opt","maia-meet","releases"]

/-- What the script has settled before the backup: the nginx site, which it requires to be under
/etc/nginx, the release to copy, and what it will write. -/
structure Plan where
  site : Path
  site_under : ["etc","nginx"] <+: site
  stamp : String
  tree : List (Path × Option File)
  text : List UInt8
  unit : List UInt8
  location : List UInt8
  proposedSite : List UInt8

structure Backup where
  previous : OrderedMap Path Bool
  oldLink : Option LinkTarget
  wasActive : Bool
  wasEnabled : Bool

theorem release_ne_empty (stamp : String) : "/opt/maia-meet/releases/" ++ stamp ≠ "" := by
  simp

namespace Plan

open Script Installer

variable (plan : Plan)

def release : Path := releases ++ [plan.stamp]
def releaseTarget : LinkTarget :=
  ⟨"/opt/maia-meet/releases/" ++ plan.stamp,release_ne_empty plan.stamp⟩

def backupDir : Path := ["var","backups","maia-meet",plan.stamp]

/-- `backup / str(index)` -/
def saved (index : Nat) : Path := plan.backupDir ++ [toString index]

def paths : List Path := [plan.site,snippet,unitPath,envPath]

def encode (text : String) : List UInt8 := text.toUTF8.data.toList

def pathsNote : String :=
  "
".intercalate (plan.paths.zipIdx.map
    (fun e => toString e.2 ++ ": /" ++ "/".intercalate e.1))

def backupPaths : Nat → List Path → OrderedMap Path Bool → Installer (OrderedMap Path Bool)
  | _, [], previous => pure previous
  | index, path :: paths, previous => do
    let m ← get
    doIf (m.files path).isSome (copy2 path (plan.saved index))
    backupPaths (index+1) paths (previous.set path (m.files path).isSome)

def backup : Installer Backup := do
  elsewhere
  elsewhere
  let previous ← plan.backupPaths 0 plan.paths .empty
  writeText (plan.backupDir ++ ["paths.txt"]) (encode plan.pathsNote)
  let m ← get
  let oldLink := m.current
  writeText (plan.backupDir ++ ["previous-release.txt"]) (encode (oldLink.elim "" Subtype.val))
  let wasActive ← isActive
  let wasEnabled ← isEnabled
  -- the port has to be free
  doIf (!wasActive) elsewhere
  pure ⟨previous,oldLink,wasActive,wasEnabled⟩

/-- The block under `try`. -/
def activate : Installer Unit := do
  elsewhere
  copytree plan.release plan.tree false
  elsewhere
  elsewhere
  elsewhere
  forEach (fun entry => match entry.2 with
    | none => elsewhere
    | some _ => chmod (plan.release ++ entry.1) 0o644) plan.tree
  let m ← get
  doIf m.current.isSome unlinkCurrent
  symlinkCurrent plan.releaseTarget
  forEach (fun _ => elsewhere) [snippet,unitPath,envPath]
  writeText envPath plan.text
  chmod envPath 0o600
  writeText unitPath plan.unit
  writeText snippet plan.location
  writeText plan.site plan.proposedSite
  run .nginxTest
  run .daemonReload
  run .restart
  healthCheck 50
  run .isActive
  run .enable
  run .reloadNginx

def restorePath (b : Backup) (index : Nat) (path : Path) : Installer Unit := do
  let m ← get
  if b.previous.get path = some true then copy2 (plan.saved index) path
  else doIf (m.files path).isSome (unlink path)

def restorePaths (b : Backup) : Nat → List Path → Installer Unit
  | _, [] => pure ()
  | index, path :: paths => do
    plan.restorePath b index path
    restorePaths b (index+1) paths

def relink : Option LinkTarget → Installer Unit
  | none => pure ()
  | some target => symlinkCurrent target

/-- The handler of the block. -/
def rollback (b : Backup) : Installer Unit := do
  call .stop
  let m ← get
  doIf m.current.isSome unlinkCurrent
  relink b.oldLink
  plan.restorePaths b 0 plan.paths
  doIf (!b.wasEnabled) (call .disable)
  call .daemonReload
  doIf b.wasActive (call .start)
  call .nginxTest
  call .reloadNginx

def install : Installer Unit := do
  let b ← plan.backup
  tryCatch plan.activate (fun e => do
    plan.rollback b
    throw e)

end Plan

end MaiaMeet
