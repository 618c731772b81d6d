import Mathlib.Data.List.Infix
import Mathlib.Logic.Function.Basic
import MaiaMeet.Faults
import MaiaMeet.Installer
set_option autoImplicit false

/-!
install-vps.py from its last look at nginx on: the checks that refuse to replace what is not
its own, the backup, the activation, and the handler that takes the activation back.
-/

namespace MaiaMeet

/-- `nginx -t`, the reload, certbot, and the two checks of the certificate. -/
inductive PublishCommand where
  | nginxTest | reloadNginx | certonly | checkHost | checkEnd
  deriving DecidableEq, Repr

inductive PublishError where
  | OSError
  | CalledProcessError (command : PublishCommand)
  | RuntimeError (message : String)
  | other (name : String)
  deriving DecidableEq, Repr

/-- What stands at the path in sites-enabled: a link that resolves to the site, or anything
else. -/
inductive EnabledSite where
  | linked (target : String)
  | foreign
  deriving DecidableEq, Repr

structure Asked where
  command : PublishCommand
  status : Nat
  site : Option File
  enabled : Option EnabledSite
  deriving DecidableEq, Repr

/-- The VPS as the script sees it; directories are left out. -/
structure Vps where
  files : Path → Option File
  link : Option EnabledSite
  log : List Asked
  creationMode : Nat

abbrev Publisher := Faults.Faulty PublishError Vps

def sitePath : Path := ["etc","nginx","sites-available","maia-meet-public.conf"]
def linkPath : Path := ["etc","nginx","sites-enabled","maia-meet-public.conf"]
def hookPath : Path := ["etc","letsencrypt","renewal-hooks","deploy","maia-meet-nginx"]

namespace Vps

def put (v : Vps) (path : Path) (file : Option File) : Vps :=
  { v with files := Function.update v.files path file }

/-- A file opened for writing keeps its mode if it exists. -/
def write (v : Vps) (path : Path) (content : List UInt8) : Vps :=
  v.put path (some ⟨content,(v.files path).elim v.creationMode File.mode⟩)

/-- A write that stopped: before the file was opened, or after so many bytes. -/
def writeTorn (v : Vps) (path : Path) (content : List UInt8) : Nat → Vps
  | 0 => v
  | k+1 => v.write path (content.take k)

def chmod (v : Vps) (path : Path) (mode : Nat) : Vps :=
  v.put path ((v.files path).map (fun file => { file with mode := mode }))

def setLink (v : Vps) (link : Option EnabledSite) : Vps := { v with link := link }

def setFiles (v : Vps) (files : Path → Option File) : Vps := { v with files := files }

def ask (v : Vps) (command : PublishCommand) (status : Nat) : Vps :=
  { v with log := v.log ++ [⟨command,status,v.files sitePath,v.link⟩] }

theorem put_files (v : Vps) (path : Path) (file : Option File) (p : Path) :
    (v.put path file).files p = if p = path then file else v.files p := by
  by_cases hp : p = path
  · subst hp
    simp [put]
  · simp [put,hp]

@[simp] theorem put_link (v : Vps) (path : Path) (file : Option File) :
    (v.put path file).link = v.link := rfl
@[simp] theorem put_log (v : Vps) (path : Path) (file : Option File) :
    (v.put path file).log = v.log := rfl
@[simp] theorem setLink_files (v : Vps) (link : Option EnabledSite) :
    (v.setLink link).files = v.files := rfl
@[simp] theorem setLink_link (v : Vps) (link : Option EnabledSite) :
    (v.setLink link).link = link := rfl
@[simp] theorem setLink_log (v : Vps) (link : Option EnabledSite) :
    (v.setLink link).log = v.log := rfl

end Vps

namespace Publisher

open Faults Script

/-- An operation on directories. -/
def elsewhere : Publisher Unit := perform (fun _ v => v) (fun v => v)

def writeText (path : Path) (text : List UInt8) : Publisher Unit :=
  perform (fun k v => v.writeTorn path text k) (fun v => v.write path text)

def chmod (path : Path) (mode : Nat) : Publisher Unit :=
  perform (fun _ v => v) (fun v => v.chmod path mode)

def unlink (path : Path) : Publisher Unit := perform (fun _ v => v) (fun v => v.put path none)

/-- `shutil.copy2` -/
def copy2 (src dst : Path) : Publisher Unit := do
  let v ← look
  match v.files src with
  | none => throw .OSError
  | some file => perform (fun k v => v.writeTorn dst file.content k) (fun v => v.put dst (some file))

def siteLink : EnabledSite := .linked "/etc/nginx/sites-available/maia-meet-public.conf"

/-- `link.symlink_to(site)` -/
def symlink : Publisher Unit := do
  let v ← look
  if v.link.isSome then throw .OSError
  else perform (fun _ v => v) (fun v => v.setLink (some siteLink))

def unlinkSite : Publisher Unit := perform (fun _ v => v) (fun v => v.setLink none)

def command (c : PublishCommand) : Publisher Unit :=
  Faults.run (fun status v => v.ask c status) (.CalledProcessError c)

def reloadNginx : Publisher Unit := do
  command .nginxTest
  command .reloadNginx

end Publisher

def renewalHook : List UInt8 :=
  Plan.encode "#!/bin/sh\n# Maia Meet renewal hook\nset -e\n/usr/sbin/nginx -t\n" ++
    Plan.encode "/bin/systemctl reload nginx\n"

/-- The server blocks of the two ports, the certificate's paths, and the name of the backup.
`inspection` is what the script makes of `nginx -T`, and `obstacle` of a missing certificate (a
custom one, no certbot, no email): an exception, or nothing. `certbot` is what certonly makes of
the files, by its status: it leaves the script's and its backups alone, and if it exits with 0 the
certificate is there. -/
structure Publication where
  server : List UInt8
  https : List UInt8
  cert : Path
  key : Path
  stamp : String
  inspection : Option PublishError
  obstacle : Option PublishError
  certbot : Nat → (Path → Option File) → Path → Option File
  https_ne_nil : https ≠ []
  certbot_apart : ∀ status files p, p = sitePath ∨ p = hookPath ∨
    ["var","backups","maia-meet-vps"] <+: p → certbot status files p = files p
  certbot_issues : obstacle = none → ∀ files, (certbot 0 files cert).isSome ∧
    (certbot 0 files key).isSome

structure Previous where
  site : Bool
  hook : Bool
  hadLink : Bool
  deriving DecidableEq, Repr

namespace Publication

open Faults Script Publisher

variable (plan : Publication)

def marker : List UInt8 := Plan.encode "# Maia Meet: managed by deploy/install-vps.py"
def hookMarker : List UInt8 := Plan.encode "# Maia Meet renewal hook"

def http : List UInt8 := marker ++ plan.server

def backupDir : Path := ["var","backups","maia-meet-vps",plan.stamp]

/-- `backup / path.name` -/
def saved (path : Path) : Path := plan.backupDir ++ [path.getLastD ""]

def unmanaged (v : Vps) (path : Path) (marker : List UInt8) : Bool :=
  (v.files path).any (fun file => !decide (marker <:+: file.content))

def refusal (what : String) (path : Path) : PublishError :=
  .RuntimeError ("Refusing to " ++ what ++ " /" ++ "/".intercalate path)

/-- `cert.is_file() and key.is_file()`, negated. -/
def needsCertificate (v : Vps) : Bool := (v.files plan.cert).isNone || (v.files plan.key).isNone

/-- The refusals, in the script's order. -/
def check : Publisher Unit := do
  command .nginxTest
  let v ← look
  match plan.inspection with
  | some e => throw e
  | none =>
    if unmanaged v hookPath hookMarker then throw (refusal "overwrite unmanaged" hookPath)
    else if unmanaged v sitePath marker then throw (refusal "overwrite unmanaged" sitePath)
    else if v.link = some .foreign then throw (refusal "replace" linkPath)
    else if plan.needsCertificate v then
      match plan.obstacle with
      | some e => throw e
      | none => pure ()
    else pure ()

def save (path : Path) : Publisher Bool := do
  let v ← look
  doIf (v.files path).isSome (copy2 path (plan.saved path))
  pure (v.files path).isSome

def backup : Publisher Previous := do
  elsewhere
  let site ← plan.save sitePath
  let hook ← plan.save hookPath
  let v ← look
  pure ⟨site,hook,v.link.isSome⟩

def certonly : Publisher Unit :=
  Faults.run (fun status v => (v.ask .certonly status).setFiles (plan.certbot status v.files))
    (.CalledProcessError .certonly)

/-- Before the certificate is there, nginx serves the challenge on port 80. -/
def obtainCertificate : Publisher Unit := do
  writeText sitePath plan.http
  reloadNginx
  plan.certonly

/-- The block under `try`. -/
def activate (hadLink needed : Bool) : Publisher Unit := do
  elsewhere
  elsewhere
  elsewhere
  doIf (!hadLink) symlink
  doIf needed plan.obtainCertificate
  command .checkHost
  command .checkEnd
  writeText sitePath (plan.http ++ plan.https)
  reloadNginx
  elsewhere
  writeText hookPath renewalHook
  Publisher.chmod hookPath 0o755

def restore (path : Path) (existed : Bool) : Publisher Unit := do
  let v ← look
  if existed then copy2 (plan.saved path) path
  else doIf (v.files path).isSome (unlink path)

/-- The handler of the block. Its reload is checked, so that it may raise itself. -/
def handler (previous : Previous) : Publisher Unit := do
  let v ← look
  doIf (!previous.hadLink && v.link.isSome) unlinkSite
  plan.restore sitePath previous.site
  plan.restore hookPath previous.hook
  reloadNginx

def publish : Publisher Unit := do
  plan.check
  let v ← look
  let previous ← plan.backup
  tryCatch (plan.activate previous.hadLink (plan.needsCertificate v)) (fun e => do
    plan.handler previous
    throw e)

end Publication

end MaiaMeet
