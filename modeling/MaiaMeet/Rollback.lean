import MaiaMeet.Installer
import MaiaMeet.Numerals
set_option autoImplicit false

namespace MaiaMeet

open Script Installer

def Plan.Writes (plan : Plan) (path : Path) : Prop := path ∈ plan.paths ∨ plan.release <+: path

structure Plan.Within (plan : Plan) (m₁ m : Machine) : Prop where
  others : ∀ p, ¬plan.Writes p → m.files p = m₁.files p
  asked : ∃ log, m.asked = m₁.asked ++ log ∧ Command.start ∉ log ∧ Command.disable ∉ log

section
variable {plan : Plan} {m₁ m : Machine} {path : Path}

theorem Plan.Within.refl (plan : Plan) (m₁ : Machine) : plan.Within m₁ m₁ :=
  ⟨fun _ _ => rfl,[],by simp⟩

theorem Plan.Within.put (h : plan.Within m₁ m) (hpath : plan.Writes path) (file : Option File) :
    plan.Within m₁ (m.put path file) where
  others p hp := by
    have hne : p ≠ path := by
      rintro rfl
      exact hp hpath
    rw [Machine.put]
    exact (Function.update_of_ne hne _ _).trans (h.others p hp)
  asked := h.asked

theorem Plan.Within.writeTorn (h : plan.Within m₁ m) (hpath : plan.Writes path)
    (content : List UInt8) (k : Nat) : plan.Within m₁ (m.writeTorn path content k) := by
  cases k with
  | zero => exact h
  | succ k => exact h.put hpath _

theorem keeps_answer : Keeps (plan.Within m₁) answer := by
  unfold answer
  refine keeps_get.bind (fun s => ?_)
  split
  · exact keeps_pure
  · exact (keeps_modify (fun t ht => ⟨ht.others,ht.asked⟩)).bind (fun _ => keeps_pure)

theorem keeps_perform {torn : Nat → Machine → Machine} {done : Machine → Machine}
    (htorn : ∀ k m, plan.Within m₁ m → plan.Within m₁ (torn k m))
    (hdone : ∀ m, plan.Within m₁ m → plan.Within m₁ (done m)) : Keeps (plan.Within m₁) (perform torn done) := by
  refine keeps_answer.bind (fun a => ?_)
  split
  · exact (keeps_modify (htorn _)).bind (fun _ => keeps_throw)
  · exact keeps_modify hdone

theorem keeps_elsewhere : Keeps (plan.Within m₁) elsewhere :=
  keeps_perform (fun _ _ h => h) (fun _ h => h)

theorem keeps_writeText (hpath : plan.Writes path) (text : List UInt8) :
    Keeps (plan.Within m₁) (writeText path text) :=
  keeps_perform (fun k _ h => h.writeTorn hpath text k) (fun _ h => h.put hpath _)

theorem keeps_chmod (hpath : plan.Writes path) (mode : Nat) :
    Keeps (plan.Within m₁) (chmod path mode) :=
  keeps_perform (fun _ _ h => h) (fun _ h => h.put hpath _)

theorem keeps_unlinkCurrent : Keeps (plan.Within m₁) unlinkCurrent :=
  keeps_perform (fun _ _ h => h) (fun _ h => ⟨h.others,h.asked⟩)

theorem keeps_symlinkCurrent (target : LinkTarget) :
    Keeps (plan.Within m₁) (symlinkCurrent target) := by
  refine keeps_get.bind (fun s => ?_)
  split
  · exact keeps_throw
  · exact keeps_perform (fun _ _ h => h) (fun _ h => ⟨h.others,h.asked⟩)

theorem keeps_run {command : Command} (hstart : command ≠ .start) (hdisable : command ≠ .disable) :
    Keeps (plan.Within m₁) (run command) := by
  refine keeps_answer.bind (fun a => ?_)
  split
  · exact keeps_throw
  · refine (keeps_modify (fun m h => ?_)).bind (fun _ => ?_)
    · obtain ⟨log,hlog,hs,hd⟩ := h.asked
      refine ⟨h.others,log ++ [command],?_,?_,?_⟩
      · simp [Machine.ask,hlog]
      · simpa [hs] using hstart.symm
      · simpa [hd] using hdisable.symm
    · split
      · exact keeps_throw
      · exact keeps_pure

theorem keeps_healthCheck (attempts : Nat) : Keeps (plan.Within m₁) (healthCheck attempts) := by
  induction attempts with
  | zero => exact keeps_throw
  | succ attempts ih =>
    refine keeps_answer.bind (fun a => ?_)
    split
    · exact ih
    · exact keeps_throw
    · split
      · exact keeps_pure
      · exact ih

theorem writes_release (rest : Path) : plan.Writes (plan.release ++ rest) :=
  Or.inr (List.prefix_append _ _)

theorem keeps_copyEntry (entry : Path × Option File) :
    Keeps (plan.Within m₁) (copyEntry plan.release entry) := by
  unfold copyEntry
  split
  · exact keeps_elsewhere
  · exact keeps_perform (fun k _ h => h.writeTorn (writes_release _) _ k)
      (fun _ h => h.put (writes_release _) _)

theorem keeps_copytree (tree : List (Path × Option File)) (failed : Bool) :
    Keeps (plan.Within m₁) (copytree plan.release tree failed) := by
  induction tree generalizing failed with
  | nil =>
    unfold copytree
    split
    · exact keeps_throw
    · exact keeps_pure
  | cons entry tree ih =>
    refine Keeps.bind (Keeps.tryCatch ?_ (fun e => ?_)) (fun copied => ih _)
    · exact (keeps_copyEntry entry).bind (fun _ => keeps_pure)
    · split
      · exact keeps_pure
      · exact keeps_throw

end

namespace Plan

variable (plan : Plan)

theorem site_head : plan.site.head? = some "etc" := by
  obtain ⟨rest,hrest⟩ := plan.site_under
  rw [← hrest]
  rfl

theorem keeps_activate (m₁ : Machine) : Keeps (plan.Within m₁) plan.activate := by
  have hpaths : ∀ path ∈ plan.paths, plan.Writes path := fun _ => Or.inl
  refine keeps_elsewhere.bind (fun _ => (keeps_copytree _ _).bind (fun _ => ?_))
  refine keeps_elsewhere.bind (fun _ => keeps_elsewhere.bind (fun _ => ?_))
  refine keeps_elsewhere.bind (fun _ => Keeps.bind (Keeps.forEach ?_) (fun _ => ?_))
  · intro entry _
    split
    · exact keeps_elsewhere
    · exact keeps_chmod (writes_release _) _
  refine keeps_get.bind (fun m => (keeps_unlinkCurrent.doIf _).bind (fun _ => ?_))
  refine (keeps_symlinkCurrent _).bind (fun _ => ?_)
  refine Keeps.bind (Keeps.forEach (fun _ _ => keeps_elsewhere)) (fun _ => ?_)
  refine (keeps_writeText (hpaths _ (by simp [paths])) _).bind (fun _ => ?_)
  refine (keeps_chmod (hpaths _ (by simp [paths])) _).bind (fun _ => ?_)
  refine (keeps_writeText (hpaths _ (by simp [paths])) _).bind (fun _ => ?_)
  refine (keeps_writeText (hpaths _ (by simp [paths])) _).bind (fun _ => ?_)
  refine (keeps_writeText (hpaths _ (by simp [paths])) _).bind (fun _ => ?_)
  refine (keeps_run (by simp) (by simp)).bind (fun _ => ?_)
  refine (keeps_run (by simp) (by simp)).bind (fun _ => ?_)
  refine (keeps_run (by simp) (by simp)).bind (fun _ => ?_)
  refine (keeps_healthCheck 50).bind (fun _ => ?_)
  refine (keeps_run (by simp) (by simp)).bind (fun _ => ?_)
  refine (keeps_run (by simp) (by simp)).bind (fun _ => ?_)
  exact keeps_run (by simp) (by simp)

end Plan

structure Machine.Shows (m : Machine) (files : Path → Option File) (current : Option LinkTarget)
    (asked : List Command) : Prop where
  files : m.files = files
  current : m.current = current
  asked : m.asked = asked
  calm : ∀ a ∈ m.tape, a.raised = none

section
variable {m : Machine} {files : Path → Option File} {current : Option LinkTarget}
  {asked : List Command} {path : Path}

theorem wp_answer (h : m.Shows files current asked) :
    wp answer (fun a t => a.raised = none ∧ t.Shows files current asked) (fun _ _ => False) m := by
  unfold answer
  rw [wp_bind,wp_get]
  cases htape : m.tape with
  | nil => exact ⟨rfl,h⟩
  | cons a tape =>
    have hcalm := h.calm
    rw [htape] at hcalm
    obtain ⟨ha,hrest⟩ := List.forall_mem_cons.mp hcalm
    exact ⟨ha,h.files,h.current,h.asked,hrest⟩

theorem wp_perform {torn : Nat → Machine → Machine} {done : Machine → Machine}
    {files' : Path → Option File} {current' : Option LinkTarget}
    (h : m.Shows files current asked)
    (hdone : ∀ t : Machine, t.Shows files current asked → (done t).Shows files' current' asked) :
    wp (perform torn done) (fun _ t => t.Shows files' current' asked) (fun _ _ => False) m := by
  refine wp_seq (wp_answer h) (fun a t ht => ?_)
  rw [ht.1]
  exact hdone t ht.2

theorem Machine.Shows.put (h : m.Shows files current asked) (path : Path) (file : Option File) :
    (m.put path file).Shows (Function.update files path file) current asked :=
  ⟨by rw [← h.files]; rfl,h.current,h.asked,h.calm⟩

theorem wp_unlink (h : m.Shows files current asked) :
    wp (unlink path) (fun _ t => t.Shows (Function.update files path none) current asked)
      (fun _ _ => False) m :=
  wp_perform h (fun _ ht => ht.put path none)

theorem wp_copy2 {src : Path} {file : File} (h : m.Shows files current asked)
    (hsrc : files src = some file) :
    wp (copy2 src path) (fun _ t => t.Shows (Function.update files path (some file)) current asked)
      (fun _ _ => False) m := by
  unfold copy2
  rw [wp_bind,wp_get,h.files,hsrc]
  exact wp_perform h (fun _ ht => ht.put path (some file))

theorem wp_unlinkCurrent (h : m.Shows files current asked) :
    wp (doIf m.current.isSome unlinkCurrent) (fun _ t => t.Shows files none asked)
      (fun _ _ => False) m := by
  rw [wp_doIf]
  split
  · exact wp_perform h (fun _ ht => ⟨ht.files,rfl,ht.asked,ht.calm⟩)
  · rename_i hnone
    have hcurrent : current = none := by simpa [h.current] using hnone
    subst hcurrent
    exact h

theorem wp_relink (target : Option LinkTarget) (h : m.Shows files none asked) :
    wp (Plan.relink target) (fun _ t => t.Shows files target asked) (fun _ _ => False) m := by
  cases target with
  | none => exact h
  | some target =>
    unfold Plan.relink symlinkCurrent
    rw [wp_bind,wp_get,h.current]
    exact wp_perform h (fun _ ht => ⟨ht.files,rfl,ht.asked,ht.calm⟩)

theorem wp_call (h : m.Shows files current asked) (command : Command) :
    wp (call command) (fun _ t => t.Shows files current (asked ++ [command]))
      (fun _ _ => False) m :=
  ⟨h.files,h.current,by rw [← h.asked]; rfl,h.calm⟩

theorem wp_callIf (h : m.Shows files current asked) (c : Bool) (command : Command) :
    wp (doIf c (call command))
      (fun _ t => t.Shows files current (asked ++ if c then [command] else []))
      (fun _ _ => False) m := by
  rw [wp_doIf]
  cases c with
  | true => exact wp_call h command
  | false => simpa using h

end

namespace Plan

variable (plan : Plan) {m : Machine} {files : Path → Option File} {current : Option LinkTarget}
  {asked : List Command} {b : Backup} {before : Path → Option File}

theorem saved_head (index : Nat) : (plan.saved index).head? = some "var" := rfl

structure Restorable (b : Backup) (before files : Path → Option File) (index : Nat)
    (path : Path) : Prop where
  outside : path.head? ≠ some "var"
  noted : b.previous.get path = some (before path).isSome
  saved : ∀ file, before path = some file → files (plan.saved index) = some file

theorem wp_restorePath {index : Nat} {path : Path} (h : m.Shows files current asked)
    (hpath : plan.Restorable b before files index path) :
    wp (plan.restorePath b index path)
      (fun _ t => t.Shows (Function.update files path (before path)) current asked)
      (fun _ _ => False) m := by
  unfold restorePath
  rw [wp_bind,wp_get,hpath.noted]
  cases hbefore : before path with
  | some file => exact wp_copy2 h (hpath.saved file hbefore)
  | none =>
    -- a path that was absent: what is there now goes
    rw [if_neg (by simp),wp_doIf]
    split
    · exact wp_unlink h
    · rename_i hnone
      have hgone : files path = none := by simpa [h.files] using hnone
      rw [← hgone,Function.update_eq_self]
      exact h

theorem wp_restorePaths {index : Nat} {paths : List Path} (h : m.Shows files current asked)
    (hpaths : ∀ j path, paths[j]? = some path →
      plan.Restorable b before files (index+j) path) :
    wp (plan.restorePaths b index paths)
      (fun _ t => t.Shows (fun p => if p ∈ paths then before p else files p) current asked)
      (fun _ _ => False) m := by
  induction paths generalizing index m files with
  | nil => simpa [restorePaths] using h
  | cons path paths ih =>
    have hfirst : plan.Restorable b before files index path := hpaths 0 path rfl
    refine wp_seq (plan.wp_restorePath h hfirst) (fun _ t ht => ?_)
    refine wp_mono (ih ht (fun j p hp => ?_)) (fun _ u hu => ?_) (fun _ _ hf => hf)
    · -- restoring a path leaves the saved files alone
      have hlater := hpaths (j+1) p (by simpa using hp)
      rw [Nat.add_right_comm,Nat.add_assoc]
      refine ⟨hlater.outside,hlater.noted,fun file hfile => ?_⟩
      have hne : plan.saved (index + (j+1)) ≠ path := by
        intro heq
        exact hfirst.outside (heq ▸ plan.saved_head _)
      rw [Function.update_of_ne hne]
      exact hlater.saved file hfile
    · have hfiles : (fun p => if p ∈ paths then before p
          else Function.update files path (before path) p) =
          fun p => if p ∈ path :: paths then before p else files p := by
        funext p
        by_cases hp : p = path
        · subst hp
          simp
        · simp [hp]
      rw [hfiles] at hu
      exact hu

def rollbackLog (b : Backup) : List Command :=
  [.stop] ++ (if !b.wasEnabled then [.disable] else []) ++ [.daemonReload] ++
    (if b.wasActive then [.start] else []) ++ [.nginxTest] ++ [.reloadNginx]

theorem wp_rollback (h : m.Shows files current asked)
    (hpaths : ∀ j path, plan.paths[j]? = some path → plan.Restorable b before files j path) :
    wp (plan.rollback b)
      (fun _ t => t.Shows (fun p => if p ∈ plan.paths then before p else files p) b.oldLink
        (asked ++ rollbackLog b)) (fun _ _ => False) m := by
  have hpaths' : ∀ j path, plan.paths[j]? = some path →
      plan.Restorable b before files (0+j) path := by
    intro j path hp
    rw [Nat.zero_add]
    exact hpaths j path hp
  refine wp_seq (wp_call h .stop) (fun _ t ht => ?_)
  rw [wp_bind,wp_get]
  refine wp_seq (wp_unlinkCurrent ht) (fun _ t ht => ?_)
  refine wp_seq (wp_relink _ ht) (fun _ t ht => ?_)
  refine wp_seq (plan.wp_restorePaths ht hpaths') (fun _ t ht => ?_)
  refine wp_seq (wp_callIf ht _ _) (fun _ t ht => ?_)
  refine wp_seq (wp_call ht .daemonReload) (fun _ t ht => ?_)
  refine wp_seq (wp_callIf ht _ _) (fun _ t ht => ?_)
  refine wp_seq (wp_call ht .nginxTest) (fun _ t ht => ?_)
  simpa [rollbackLog] using wp_call ht .reloadNginx

end Plan

structure Machine.Alike (m t : Machine) (asked : List Command) : Prop where
  current : t.current = m.current
  active : t.active = m.active
  enabled : t.enabled = m.enabled
  asked : t.asked = m.asked ++ asked

section
variable {m : Machine}

theorem Machine.Alike.refl (m : Machine) : m.Alike m [] := ⟨rfl,rfl,rfl,by simp⟩

theorem Machine.Alike.trans {m t u : Machine} {log log' : List Command} (h : m.Alike t log)
    (h' : t.Alike u log') : m.Alike u (log ++ log') :=
  ⟨h'.current.trans h.current,h'.active.trans h.active,h'.enabled.trans h.enabled,
    by rw [h'.asked,h.asked,List.append_assoc]⟩

theorem wp_performed {torn : Nat → Machine → Machine} {done : Machine → Machine}
    {Q : Unit → Machine → Prop} (h : ∀ tape, Q () (done { m with tape := tape })) :
    wp (perform torn done) Q (fun _ _ => True) m := by
  refine wp_seq (Q := fun _ t => ∃ tape, t = { m with tape := tape }) ?_ ?_
  · unfold answer
    rw [wp_bind,wp_get]
    cases htape : m.tape with
    | nil => exact ⟨m.tape,rfl⟩
    | cons a tape => exact ⟨tape,rfl⟩
  · rintro a t ⟨tape,rfl⟩
    split
    · trivial
    · exact h tape

theorem wp_elsewhere : wp elsewhere (fun _ t => t.files = m.files ∧ m.Alike t [])
    (fun _ _ => True) m :=
  wp_performed (fun _ => ⟨rfl,rfl,rfl,rfl,by simp⟩)

theorem wp_isActive : wp isActive (fun a t => a = m.active ∧ t.files = m.files ∧
    m.Alike t [.isActive]) (fun _ _ => True) m :=
  ⟨rfl,rfl,rfl,rfl,rfl,rfl⟩

theorem wp_isEnabled : wp isEnabled (fun a t => a = m.enabled ∧ t.files = m.files ∧
    m.Alike t [.isEnabled]) (fun _ _ => True) m :=
  ⟨rfl,rfl,rfl,rfl,rfl,rfl⟩

theorem wp_elsewhereIf (c : Bool) : wp (doIf c elsewhere)
    (fun _ t => t.files = m.files ∧ m.Alike t []) (fun _ _ => True) m := by
  rw [wp_doIf]
  cases c with
  | true => exact wp_elsewhere
  | false => exact ⟨rfl,.refl m⟩

theorem wp_writeText (path : Path) (text : List UInt8) :
    wp (writeText path text) (fun _ t => (∀ p, p ≠ path → t.files p = m.files p) ∧ m.Alike t [])
      (fun _ _ => True) m :=
  wp_performed (fun _ => ⟨fun _ hp => Function.update_of_ne hp _ _,rfl,rfl,rfl,by
    simp [Machine.write,Machine.put]⟩)

theorem wp_saveFile (src dst : Path) :
    wp (doIf (m.files src).isSome (copy2 src dst)) (fun _ t =>
      (∀ p, p ≠ dst → t.files p = m.files p) ∧
      (∀ file, m.files src = some file → t.files dst = some file) ∧ m.Alike t [])
      (fun _ _ => True) m := by
  rw [wp_doIf]
  cases hsrc : m.files src with
  | none => exact ⟨fun _ _ => rfl,fun _ h => absurd h (by simp),.refl m⟩
  | some file =>
    unfold copy2
    rw [if_pos (by simp),wp_bind,wp_get,hsrc]
    refine wp_performed (fun tape => ⟨fun p hp => Function.update_of_ne hp _ _,?_,rfl,rfl,rfl,?_⟩)
    · intro file' hfile
      rw [← hfile]
      exact Function.update_self ..
    · simp [Machine.put]

end

namespace Plan

variable (plan : Plan) {m : Machine}

theorem saved_injective {i j : Nat} (h : plan.saved i = plan.saved j) : i = j := by
  exact Numerals.toString_injective (by simpa [saved] using h)

theorem ne_saved {path : Path} (h : path.head? ≠ some "var") (index : Nat) :
    path ≠ plan.saved index := by
  rintro rfl
  exact h (plan.saved_head index)

structure Copied (m : Machine) (index : Nat) (paths : List Path)
    (previous previous' : OrderedMap Path Bool) (t : Machine) : Prop where
  alike : m.Alike t []
  outside : ∀ p : Path, p.head? ≠ some "var" → t.files p = m.files p
  earlier : ∀ k < index, t.files (plan.saved k) = m.files (plan.saved k)
  saved : ∀ j p, paths[j]? = some p → ∀ file, m.files p = some file →
    t.files (plan.saved (index+j)) = some file
  noted : ∀ p ∈ paths, previous'.get p = some (m.files p).isSome
  others : ∀ p, p ∉ paths → previous'.get p = previous.get p

theorem wp_backupPaths {index : Nat} {paths : List Path} {previous : OrderedMap Path Bool}
    (hout : ∀ p ∈ paths, p.head? ≠ some "var") :
    wp (plan.backupPaths index paths previous) (plan.Copied m index paths previous)
      (fun _ _ => True) m := by
  induction paths generalizing index previous m with
  | nil => exact ⟨.refl m,fun _ _ => rfl,fun _ _ => rfl,by simp,by simp,fun _ _ => rfl⟩
  | cons path paths ih =>
    obtain ⟨hpath,hpaths⟩ := List.forall_mem_cons.mp hout
    unfold backupPaths
    rw [wp_bind,wp_get]
    refine wp_seq (wp_saveFile path (plan.saved index)) ?_
    rintro _ t ⟨hrest,hsaved,halike⟩
    refine wp_mono (ih hpaths) (fun previous' u hu => ?_) (fun _ _ _ => trivial)
    have hmid : ∀ p : Path, p.head? ≠ some "var" → t.files p = m.files p :=
      fun p hp => hrest p (plan.ne_saved hp index)
    refine ⟨halike.trans hu.alike,?_,?_,?_,?_,?_⟩
    · intro p hp
      rw [hu.outside p hp,hmid p hp]
    · intro k hk
      rw [hu.earlier k (by omega)]
      apply hrest
      intro heq
      have := plan.saved_injective heq
      omega
    · intro j p hp file hfile
      cases j with
      | zero =>
        cases hp
        exact (hu.earlier index (by omega)).trans (hsaved file hfile)
      | succ j =>
        have hp' : paths[j]? = some p := by simpa using hp
        have hmem := hpaths p (List.mem_of_getElem? hp')
        have hlater := hu.saved j p hp' file ((hmid p hmem).trans hfile)
        rw [Nat.add_right_comm] at hlater
        exact hlater
    · intro p hp
      by_cases hlater : p ∈ paths
      · rw [hu.noted p hlater,hmid p (hpaths p hlater)]
      · have heq : p = path := by simpa [hlater] using hp
        subst heq
        rw [hu.others p hlater,OrderedMap.get_set_self]
    · intro p hp
      rw [List.mem_cons,not_or] at hp
      rw [hu.others p hp.2,OrderedMap.get_set_ne _ _ hp.1]

structure BackedUp (m : Machine) (b : Backup) (t : Machine) : Prop where
  alike : m.Alike t [.isActive,.isEnabled]
  outside : ∀ p : Path, p.head? ≠ some "var" → t.files p = m.files p
  restorable : ∀ j path, plan.paths[j]? = some path → plan.Restorable b m.files t.files j path
  oldLink : b.oldLink = m.current
  wasActive : b.wasActive = m.active
  wasEnabled : b.wasEnabled = m.enabled

theorem paths_head : ∀ p ∈ plan.paths, p.head? = some "etc" := by
  simp [paths,plan.site_head,snippet,unitPath,envPath]

theorem paths_outside (p : Path) (hp : p ∈ plan.paths) : p.head? ≠ some "var" := by
  simp [plan.paths_head p hp]

theorem paths_not_release (p : Path) (hp : p ∈ plan.paths) : ¬plan.release <+: p := by
  rintro ⟨rest,rfl⟩
  have hhead := plan.paths_head _ hp
  simp [release,releases] at hhead

theorem saved_ne_note {name : String} (hmem : 'p' ∈ name.toList) (index : Nat) :
    plan.saved index ≠ plan.backupDir ++ [name] := by
  have hne := Numerals.toString_ne hmem rfl index
  simpa [saved] using hne

theorem wp_backup : wp plan.backup (plan.BackedUp m) (fun _ _ => True) m := by
  refine wp_seq wp_elsewhere ?_
  rintro _ t₁ ⟨hfiles₁,halike₁⟩
  refine wp_seq wp_elsewhere ?_
  rintro _ t₂ ⟨hfiles₂,halike₂⟩
  refine wp_seq (plan.wp_backupPaths plan.paths_outside) (fun previous t₃ hcopied => ?_)
  refine wp_seq (wp_writeText _ _) ?_
  rintro _ t₄ ⟨hfiles₄,halike₄⟩
  rw [wp_bind,wp_get]
  refine wp_seq (wp_writeText _ _) ?_
  rintro _ t₅ ⟨hfiles₅,halike₅⟩
  have hbegin : t₂.files = m.files := hfiles₂.trans hfiles₁
  have hnotes : ∀ p : Path, p ≠ plan.backupDir ++ ["paths.txt"] →
      p ≠ plan.backupDir ++ ["previous-release.txt"] → t₅.files p = t₃.files p :=
    fun p hpaths hlink => (hfiles₅ p hlink).trans (hfiles₄ p hpaths)
  have hplain : ∀ p : Path, p.head? ≠ some "var" → t₅.files p = m.files p := by
    intro p hp
    rw [hnotes p (fun he => hp (he ▸ rfl)) (fun he => hp (he ▸ rfl)),hcopied.outside p hp,hbegin]
  refine wp_seq wp_isActive ?_
  rintro _ t₆ ⟨rfl,hfiles₆,halike₆⟩
  refine wp_seq wp_isEnabled ?_
  rintro _ t₇ ⟨rfl,hfiles₇,halike₇⟩
  refine wp_seq (wp_elsewhereIf _) ?_
  rintro _ t₈ ⟨hfiles₈,halike₈⟩
  have hend : t₈.files = t₅.files := hfiles₈.trans (hfiles₇.trans hfiles₆)
  have hstart := halike₁.trans (halike₂.trans (hcopied.alike.trans (halike₄.trans halike₅)))
  refine ⟨?_,fun p hp => by rw [hend,hplain p hp],?_,?_,?_,?_⟩
  · simpa using hstart.trans (halike₆.trans (halike₇.trans halike₈))
  · intro j path hj
    have hmem := List.mem_of_getElem? hj
    have hsame : t₂.files path = m.files path := by rw [hbegin]
    refine ⟨plan.paths_outside path hmem,?_,fun file hfile => ?_⟩
    · rw [hcopied.noted path hmem,hsame]
    · rw [hend,hnotes _ (plan.saved_ne_note (by simp) j) (plan.saved_ne_note (by simp) j)]
      have hsaved := hcopied.saved j path hj file (hsame.trans hfile)
      rw [Nat.zero_add] at hsaved
      exact hsaved
  · exact halike₄.current.trans
      (hcopied.alike.current.trans (halike₂.current.trans halike₁.current))
  · exact hstart.active
  · exact halike₆.enabled.trans hstart.enabled

end Plan

open Plan

theorem rollbackLog_count (b : Backup) :
    (rollbackLog b).count .start = (if b.wasActive then 1 else 0) ∧
      (rollbackLog b).count .disable = if b.wasEnabled then 0 else 1 := by
  cases hactive : b.wasActive <;> cases henabled : b.wasEnabled <;>
    simp [rollbackLog,hactive,henabled]

theorem not_writes_var (plan : Plan) {path : Path} (h : path.head? = some "var") :
    ¬plan.Writes path := by
  rintro (hpath | ⟨rest,rfl⟩)
  · exact plan.paths_outside path hpath h
  · simp [release,releases] at h

/-- A failed installation leaves nothing behind but its backup, under /var, and the release. -/
theorem failed_install (plan : Plan) {m m₁ m₂ : Machine} {b : Backup} {e : PyError}
    (hbackup : plan.backup m = .ok b m₁) (hraised : plan.activate m₁ = .error e m₂)
    (hcalm : ∀ a ∈ m₂.tape, a.raised = none) :
    ∃ m₃ acts, plan.install m = .error e m₃ ∧
      (∀ path, path.head? ≠ some "var" → ¬plan.release <+: path →
        m₃.files path = m.files path) ∧
      m₃.current = m.current ∧
      m₃.asked = m.asked ++ ([.isActive,.isEnabled] ++ acts ++ rollbackLog b) ∧
      Command.start ∉ acts ∧ Command.disable ∉ acts := by
  have hsaved := (wp_ok hbackup).mp plan.wp_backup
  have hwithin := (wp_error hraised).mp (plan.keeps_activate m₁ m₁ (.refl plan m₁))
  obtain ⟨acts,hacts,hstart,hdisable⟩ := hwithin.asked
  -- the activation did not reach the backup
  have hrestorable : ∀ j path, plan.paths[j]? = some path →
      plan.Restorable b m.files m₂.files j path := by
    intro j path hj
    have hpath := hsaved.restorable j path hj
    refine ⟨hpath.outside,hpath.noted,fun file hfile => ?_⟩
    rw [hwithin.others _ (not_writes_var plan (plan.saved_head j))]
    exact hpath.saved file hfile
  obtain ⟨_,m₃,hroll,hshows⟩ := ok_of_wp
    (plan.wp_rollback (m := m₂) ⟨rfl,rfl,rfl,hcalm⟩ hrestorable)
  refine ⟨m₃,acts,?_,?_,?_,?_,hstart,hdisable⟩
  · rw [install,bind_of_ok hbackup,tryCatch_of_error hraised,bind_of_ok hroll]
    rfl
  · intro path hvar hrelease
    rw [hshows.files]
    by_cases hpath : path ∈ plan.paths
    · exact if_pos hpath
    · have hother : ¬plan.Writes path := not_or.mpr ⟨hpath,hrelease⟩
      exact (if_neg hpath).trans ((hwithin.others path hother).trans (hsaved.outside path hvar))
  · rw [hshows.current,hsaved.oldLink]
  · rw [hshows.asked,hacts,hsaved.alike.asked]
    simp

/-- Wherever the activation raises: the four files and the link are as they were, and the
service is asked to start if it was active and to be disabled if it was not enabled. -/
theorem install_rolls_back (plan : Plan) {m m₁ m₂ : Machine} {b : Backup} {e : PyError}
    (hbackup : plan.backup m = .ok b m₁) (hraised : plan.activate m₁ = .error e m₂)
    (hcalm : ∀ a ∈ m₂.tape, a.raised = none) :
    ∃ m₃ log, plan.install m = .error e m₃ ∧
      (∀ path ∈ plan.paths, m₃.files path = m.files path) ∧ m₃.current = m.current ∧
      m₃.asked = m.asked ++ log ∧ log.count .start = (if m.active then 1 else 0) ∧
      log.count .disable = if m.enabled then 0 else 1 := by
  obtain ⟨m₃,acts,hinstall,hfiles,hcurrent,hasked,hstart,hdisable⟩ :=
    failed_install plan hbackup hraised hcalm
  have hsaved := (wp_ok hbackup).mp plan.wp_backup
  obtain ⟨hcountStart,hcountDisable⟩ := rollbackLog_count b
  refine ⟨m₃,_,hinstall,fun path hpath => ?_,hcurrent,hasked,?_,?_⟩
  · exact hfiles path (plan.paths_outside path hpath) (plan.paths_not_release path hpath)
  · simp [hcountStart,List.count_eq_zero_of_not_mem hstart,hsaved.wasActive]
  · simp [hcountDisable,List.count_eq_zero_of_not_mem hdisable,hsaved.wasEnabled]

/-- A release for a site that is there, as is an old unit; snippet and environment are not. -/
def samplePlan : Plan where
  site := ["etc","nginx","site"]
  site_under := ⟨["site"],rfl⟩
  stamp := "1"
  tree := [(["app"],some ⟨[7],0o600⟩)]
  text := [1]
  unit := [2]
  location := [3]
  proposedSite := [4,5]

/-- The new service does not start: `restart` is the first command to exit with 1. -/
def sampleMachine : Machine where
  files := fun p => if p = ["etc","nginx","site"] then some ⟨[4],0o644⟩
    else if p = unitPath then some ⟨[9],0o640⟩ else none
  current := some ⟨"/opt/maia-meet/releases/0",by simp⟩
  active := false
  enabled := true
  asked := []
  creationMode := 0o644
  tape := List.replicate 25 ⟨none,0⟩ ++ [⟨none,1⟩]

theorem failed_restart_rolled_back : ∃ m₃ log,
    samplePlan.install sampleMachine = .error (.CalledProcessError .restart) m₃ ∧
      (∀ path ∈ samplePlan.paths, m₃.files path = sampleMachine.files path) ∧
      m₃.current = sampleMachine.current ∧ m₃.asked = sampleMachine.asked ++ log ∧
      log.count .start = 0 ∧ log.count .disable = 0 := by
  have hrun : wp samplePlan.backup (fun _ m₁ => wp samplePlan.activate (fun _ _ => False)
      (fun e m₂ => e = .CalledProcessError .restart ∧ ∀ a ∈ m₂.tape, a.raised = none) m₁)
      (fun _ _ => False) sampleMachine := by decide +kernel
  obtain ⟨b,m₁,hbackup,hactivate⟩ := ok_of_wp hrun
  obtain ⟨e,m₂,hraised,he,hcalm⟩ := error_of_wp hactivate
  subst he
  exact install_rolls_back samplePlan hbackup hraised hcalm

end MaiaMeet
