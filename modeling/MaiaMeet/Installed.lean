import MaiaMeet.AppsSite
import MaiaMeet.Rollback
set_option autoImplicit false

/-! What an installation leaves that has gone through, and what the next one finds. -/

namespace MaiaMeet

open Script Installer

structure Machine.At (m : Machine) (files : Path → Option File) (current : Option LinkTarget)
    (asked : List Command) : Prop where
  files : m.files = files
  current : m.current = current
  asked : m.asked = asked

section
variable {m : Machine} {files : Path → Option File} {current : Option LinkTarget}
  {asked : List Command} {path : Path}

theorem Machine.At.put (h : m.At files current asked) (path : Path) (file : Option File) :
    (m.put path file).At (Function.update files path file) current asked :=
  ⟨by rw [← h.files]; rfl,h.current,h.asked⟩

theorem Machine.At.answer (h : m.At files current asked) :
    wp answer (fun _ t => t.At files current asked) (fun _ _ => True) m := by
  unfold Installer.answer
  rw [wp_bind,wp_get]
  cases m.tape with
  | nil => exact h
  | cons a tape => exact ⟨h.files,h.current,h.asked⟩

theorem Machine.At.perform {torn : Nat → Machine → Machine} {done : Machine → Machine}
    {files' : Path → Option File} {current' : Option LinkTarget} (h : m.At files current asked)
    (hdone : ∀ t : Machine, t.At files current asked → (done t).At files' current' asked) :
    wp (perform torn done) (fun _ t => t.At files' current' asked) (fun _ _ => True) m :=
  wp_performed (fun _ => hdone _ ⟨h.files,h.current,h.asked⟩)

theorem Machine.At.elsewhere (h : m.At files current asked) :
    wp elsewhere (fun _ t => t.At files current asked) (fun _ _ => True) m :=
  h.perform (fun _ ht => ht)

theorem Machine.At.run (h : m.At files current asked) (command : Command) :
    wp (run command) (fun _ t => t.At files current (asked ++ [command])) (fun _ _ => True) m := by
  refine wp_seq h.answer (fun a t ht => ?_)
  cases a.raised with
  | some e => trivial
  | none =>
    simp only [wp_bind,wp_modify]
    split
    · trivial
    · exact ⟨ht.files,ht.current,by rw [← ht.asked]; rfl⟩

theorem Machine.At.healthCheck (h : m.At files current asked) (attempts : Nat) :
    wp (healthCheck attempts) (fun _ t => t.At files current asked) (fun _ _ => True) m := by
  induction attempts generalizing m with
  | zero => trivial
  | succ attempts ih =>
    refine wp_seq h.answer (fun a t ht => ?_)
    split
    · exact ih ht
    · trivial
    · split
      · exact ht
      · exact ih ht

theorem Machine.At.eachElsewhere {α : Type} (h : m.At files current asked) (l : List α) :
    wp (forEach (fun _ => Installer.elsewhere) l) (fun _ t => t.At files current asked)
      (fun _ _ => True) m := by
  induction l generalizing m with
  | nil => exact h
  | cons a l ih => exact wp_seq h.elsewhere (fun _ _ ht => ih ht)

theorem Machine.At.writeText (h : m.At files current asked) (path : Path) (text : List UInt8) :
    wp (writeText path text) (fun _ t => ∃ mode,
      t.At (Function.update files path (some ⟨text,mode⟩)) current asked) (fun _ _ => True) m :=
  wp_performed (fun _ => ⟨_,by rw [← h.files]; rfl,h.current,h.asked⟩)

theorem Machine.At.chmod (h : m.At files current asked) (path : Path) (mode : Nat) :
    wp (Installer.chmod path mode) (fun _ t => t.At (Function.update files path
      ((files path).map (fun file => { file with mode := mode }))) current asked)
      (fun _ _ => True) m :=
  h.perform (fun t ht => ⟨by rw [← ht.files]; rfl,ht.current,ht.asked⟩)

theorem Machine.At.unlinkCurrent (h : m.At files current asked) :
    wp (doIf m.current.isSome Installer.unlinkCurrent) (fun _ t => t.At files none asked)
      (fun _ _ => True) m := by
  rw [wp_doIf]
  split
  · exact h.perform (fun _ ht => ⟨ht.files,rfl,ht.asked⟩)
  · rename_i hnone
    exact ⟨h.files,by simpa using hnone,h.asked⟩

theorem Machine.At.symlinkCurrent (h : m.At files current asked) (target : LinkTarget) :
    wp (Installer.symlinkCurrent target) (fun _ t => t.At files (some target) asked)
      (fun _ _ => True) m := by
  unfold Installer.symlinkCurrent
  rw [wp_bind,wp_get]
  split
  · trivial
  · exact h.perform (fun _ ht => ⟨ht.files,rfl,ht.asked⟩)

theorem Machine.At.copyEntry (h : m.At files current asked) (dst : Path)
    (entry : Path × Option File) :
    wp (copyEntry dst entry) (fun _ t => t.At (match entry.2 with
      | none => files
      | some file => Function.update files (dst ++ entry.1) (some file)) current asked)
      (fun _ _ => True) m := by
  unfold Installer.copyEntry
  cases hentry : entry.2 with
  | none => exact h.elsewhere
  | some file => exact h.perform (fun _ ht => ht.put _ _)

theorem Machine.At.copytree {dst : Path} {tree : List (Path × Option File)} {failed : Bool}
    (htree : (tree.map Prod.fst).Nodup) (h : m.At files current asked) :
    wp (copytree dst tree failed) (fun _ t => failed = false ∧ ∃ files',
      t.At files' current asked ∧
      (∀ e ∈ tree, ∀ file, e.2 = some file → files' (dst ++ e.1) = some file) ∧
      ∀ p, (∀ e ∈ tree, p ≠ dst ++ e.1) → files' p = files p) (fun _ _ => True) m := by
  induction tree generalizing m files current asked failed with
  | nil =>
    unfold Installer.copytree
    split
    · trivial
    · rename_i hfailed
      exact ⟨by simpa using hfailed,files,h,by simp,fun _ _ => rfl⟩
  | cons entry tree ih =>
    obtain ⟨hentry,htree⟩ := List.nodup_cons.mp htree
    have hlater : ∀ e ∈ tree, dst ++ entry.1 ≠ dst ++ e.1 := by
      intro e he heq
      exact hentry (List.mem_map.mpr ⟨e,he,(List.append_cancel_left heq).symm⟩)
    unfold Installer.copytree
    refine wp_seq (Q := fun copied t => copied = true → t.At (match entry.2 with
      | none => files
      | some file => Function.update files (dst ++ entry.1) (some file)) current asked) ?_ ?_
    · rw [wp_tryCatch]
      refine wp_mono (wp_seq (h.copyEntry dst entry) (fun _ t ht => ?_)) (fun _ _ hc => hc) ?_
      · exact fun _ => ht
      · intro e t _
        split
        · exact fun hc => by cases hc
        · trivial
    · intro copied t ht
      cases copied with
      | false =>
        refine wp_mono (@ih t t.files t.current t.asked (failed || !false) htree ⟨rfl,rfl,rfl⟩)
          (fun _ u hu => ?_) (fun _ _ _ => trivial)
        simp at hu
      | true =>
        refine wp_mono (@ih t _ _ _ (failed || !true) htree (ht rfl)) (fun _ u hu => ?_)
          (fun _ _ _ => trivial)
        obtain ⟨hfailed,files',hat,hfiles,hothers⟩ := hu
        refine ⟨by simpa using hfailed,files',hat,?_,?_⟩
        · intro e he file hfile
          rcases List.mem_cons.mp he with rfl | he
          · rw [hothers _ hlater,hfile]
            exact Function.update_self ..
          · exact hfiles e he file hfile
        · intro p hp
          obtain ⟨hne,hp⟩ := List.forall_mem_cons.mp hp
          rw [hothers p hp]
          cases entry.2 with
          | none => rfl
          | some file => exact Function.update_of_ne hne _ _

theorem Machine.At.readable {dst : Path} {tree : List (Path × Option File)}
    (htree : (tree.map Prod.fst).Nodup) (h : m.At files current asked) :
    wp (forEach (fun entry : Path × Option File => match entry.2 with
        | none => Installer.elsewhere
        | some _ => Installer.chmod (dst ++ entry.1) 0o644) tree)
      (fun _ t => ∃ files', t.At files' current asked ∧
        (∀ e ∈ tree, e.2.isSome → files' (dst ++ e.1) =
          (files (dst ++ e.1)).map (fun file => { file with mode := 0o644 })) ∧
        ∀ p, (∀ e ∈ tree, p ≠ dst ++ e.1) → files' p = files p) (fun _ _ => True) m := by
  induction tree generalizing m files with
  | nil => exact ⟨files,h,by simp,fun _ _ => rfl⟩
  | cons entry tree ih =>
    obtain ⟨hentry,htree⟩ := List.nodup_cons.mp htree
    have hlater : ∀ e ∈ tree, dst ++ e.1 ≠ dst ++ entry.1 := by
      intro e he heq
      exact hentry (List.mem_map.mpr ⟨e,he,List.append_cancel_left heq⟩)
    unfold forEach
    cases hkind : entry.2 with
    | none =>
      refine wp_seq (Q := fun _ t => t.At files current asked) h.elsewhere (fun _ t ht => ?_)
      refine wp_mono (ih htree ht) (fun _ u hu => ?_) (fun _ _ _ => trivial)
      obtain ⟨files',hat,hfiles,hothers⟩ := hu
      refine ⟨files',hat,?_,fun p hp => hothers p (List.forall_mem_cons.mp hp).2⟩
      intro e he hsome
      rcases List.mem_cons.mp he with rfl | he
      · simp [hkind] at hsome
      · exact hfiles e he hsome
    | some file =>
      refine wp_seq (h.chmod (dst ++ entry.1) 0o644) (fun _ t ht => ?_)
      refine wp_mono (ih htree ht) (fun _ u hu => ?_) (fun _ _ _ => trivial)
      obtain ⟨files',hat,hfiles,hothers⟩ := hu
      refine ⟨files',hat,?_,?_⟩
      · intro e he hsome
        rcases List.mem_cons.mp he with rfl | he
        · rw [hothers _ (fun e' he' heq => hlater e' he' heq.symm)]
          exact Function.update_self ..
        · rw [hfiles e he hsome,Function.update_of_ne (hlater e he)]
      · intro p hp
        obtain ⟨hne,hp⟩ := List.forall_mem_cons.mp hp
        rw [hothers p hp]
        exact Function.update_of_ne hne _ _

end

namespace Plan

structure Installed (plan : Plan) (m t : Machine) : Prop where
  site : (t.files plan.site).map File.content = some plan.proposedSite
  env : t.files envPath = some ⟨plan.text,0o600⟩
  unit : (t.files unitPath).map File.content = some plan.unit
  snippet : plan.site ≠ snippet → (t.files snippet).map File.content = some plan.location
  release : ∀ path file, (path,some file) ∈ plan.tree →
    t.files (plan.release ++ path) = some ⟨file.content,0o644⟩
  current : t.current = some plan.releaseTarget
  others : ∀ p : Path, p.head? ≠ some "var" → ¬plan.Writes p → t.files p = m.files p
  asked : t.asked = m.asked ++ [.isActive,.isEnabled,.nginxTest,.daemonReload,.restart,.isActive,
    .enable,.reloadNginx]

variable (plan : Plan) {m : Machine}

theorem site_ne_env : plan.site ≠ envPath := by
  intro h
  have hunder := plan.site_under
  rw [h] at hunder
  exact absurd hunder (by decide)

theorem site_ne_unit : plan.site ≠ unitPath := by
  intro h
  have hunder := plan.site_under
  rw [h] at hunder
  exact absurd hunder (by decide)

theorem release_ne {path q : Path} (h : q ∈ plan.paths) : plan.release ++ path ≠ q := by
  rintro rfl
  exact plan.paths_not_release _ h (List.prefix_append _ _)

theorem wp_started {files : Path → Option File} {current : Option LinkTarget}
    {asked : List Command} (h : m.At files current asked) :
    wp (do
        run .nginxTest
        run .daemonReload
        run .restart
        healthCheck 50
        run .isActive
        run .enable
        run .reloadNginx)
      (fun _ t => t.At files current
        (asked ++ [.nginxTest,.daemonReload,.restart,.isActive,.enable,.reloadNginx]))
      (fun _ _ => True) m := by
  refine wp_seq (h.run .nginxTest) (fun _ t ht => ?_)
  refine wp_seq (ht.run .daemonReload) (fun _ t ht => ?_)
  refine wp_seq (ht.run .restart) (fun _ t ht => ?_)
  refine wp_seq (ht.healthCheck 50) (fun _ t ht => ?_)
  refine wp_seq (ht.run .isActive) (fun _ t ht => ?_)
  refine wp_seq (ht.run .enable) (fun _ t ht => ?_)
  simpa using ht.run .reloadNginx

structure Written (plan : Plan) (files : Path → Option File) : Prop where
  site : (files plan.site).map File.content = some plan.proposedSite
  env : files envPath = some ⟨plan.text,0o600⟩
  unit : (files unitPath).map File.content = some plan.unit
  snippet : plan.site ≠ snippet → (files snippet).map File.content = some plan.location
  release : ∀ path file, (path,some file) ∈ plan.tree →
    files (plan.release ++ path) = some ⟨file.content,0o644⟩

theorem wp_activate {files : Path → Option File} {current : Option LinkTarget}
    {asked : List Command} (htree : (plan.tree.map Prod.fst).Nodup)
    (h : m.At files current asked) :
    wp plan.activate (fun _ t => ∃ files', plan.Written files' ∧
      t.At files' (some plan.releaseTarget)
        (asked ++ [.nginxTest,.daemonReload,.restart,.isActive,.enable,.reloadNginx]))
      (fun _ _ => True) m := by
  refine wp_seq h.elsewhere (fun _ t ht => ?_)
  refine wp_seq (ht.copytree htree) ?_
  rintro _ t ⟨_,files₁,ht,hcopied,_⟩
  refine wp_seq ht.elsewhere (fun _ t ht => ?_)
  refine wp_seq ht.elsewhere (fun _ t ht => ?_)
  refine wp_seq ht.elsewhere (fun _ t ht => ?_)
  refine wp_seq (ht.readable htree) ?_
  rintro _ t ⟨files₂,ht,hreadable,_⟩
  rw [wp_bind,wp_get]
  refine wp_seq ht.unlinkCurrent (fun _ t ht => ?_)
  refine wp_seq (ht.symlinkCurrent _) (fun _ t ht => ?_)
  refine wp_seq (ht.eachElsewhere _) (fun _ t ht => ?_)
  refine wp_seq (ht.writeText envPath plan.text) ?_
  rintro _ t ⟨mode₁,ht⟩
  refine wp_seq (ht.chmod envPath 0o600) (fun _ t ht => ?_)
  refine wp_seq (ht.writeText unitPath plan.unit) ?_
  rintro _ t ⟨mode₂,ht⟩
  refine wp_seq (ht.writeText MaiaMeet.snippet plan.location) ?_
  rintro _ t ⟨mode₃,ht⟩
  refine wp_seq (ht.writeText plan.site plan.proposedSite) ?_
  rintro _ t ⟨mode₄,ht⟩
  refine wp_mono (wp_started ht) (fun _ u hu => ⟨_,?_,hu⟩) (fun _ _ _ => trivial)
  have henv : envPath ≠ unitPath ∧ envPath ≠ MaiaMeet.snippet ∧ unitPath ≠ MaiaMeet.snippet := by decide
  have hsite := plan.site_ne_env
  have hsiteUnit := plan.site_ne_unit
  have hmember : plan.site ∈ plan.paths ∧ MaiaMeet.snippet ∈ plan.paths ∧ unitPath ∈ plan.paths ∧
      envPath ∈ plan.paths := by simp [paths]
  refine ⟨?_,?_,?_,?_,?_⟩
  · simp
  · simp [hsite.symm,henv]
  · simp [hsiteUnit.symm,henv]
  · intro hne
    simp [hne.symm]
  · intro path file hfile
    have hne : ∀ q ∈ plan.paths, plan.release ++ path ≠ q := fun q hq => plan.release_ne hq
    simp only [Function.update_apply,hne _ hmember.1,hne _ hmember.2.1,hne _ hmember.2.2.1,
      hne _ hmember.2.2.2,if_false]
    rw [hreadable _ hfile rfl,hcopied _ hfile file rfl]
    rfl

theorem wp_install (htree : (plan.tree.map Prod.fst).Nodup) :
    wp plan.install (fun _ t => plan.Installed m t) (fun _ _ => True) m := by
  refine wp_seq plan.wp_backup (fun b m₁ hsaved => ?_)
  rw [wp_tryCatch]
  have hat : m₁.At m₁.files m₁.current m₁.asked := ⟨rfl,rfl,rfl⟩
  refine wp_mono (wp_and (plan.wp_activate htree hat)
    (plan.keeps_activate m₁ m₁ (.refl plan m₁))) ?_ ?_
  · rintro _ t ⟨⟨files',hwritten,ht⟩,hwithin⟩
    rw [← ht.files] at hwritten
    refine ⟨hwritten.site,hwritten.env,hwritten.unit,hwritten.snippet,hwritten.release,ht.current,
      fun p hp hwrites => ?_,?_⟩
    · rw [hwithin.others p hwrites,hsaved.outside p hp]
    · rw [ht.asked,hsaved.alike.asked]
      simp
  · intro e t _
    exact wp_seq wp_true (fun _ _ _ => trivial)

end Plan

def healthyMachine : Machine :=
  { sampleMachine with tape := List.replicate 26 ⟨none,0⟩ ++ [⟨none,200⟩] }

theorem encode_injective : Function.Injective Plan.encode := by
  intro s t h
  have hdata : s.toUTF8.data = t.toUTF8.data := Array.toList_inj.mp h
  exact String.toByteArray_inj.mp (ByteArray.ext hdata)

/-- After an installation the next one finds a site that it leaves as it is. -/
theorem reinstalled {isalnum : Char → Bool} {domain : SiteDomain}
    (hascii : ∀ c : Char, c.toNat < 128 → isalnum c = c.isAlphanum) (plan : Plan)
    (htree : (plan.tree.map Prod.fst).Nodup) {text proposed : List Char}
    (hsite : siteConfig isalnum domain text = .ok proposed)
    (hplan : plan.proposedSite = Plan.encode (String.ofList proposed)) {m t : Machine}
    (h : plan.install m = .ok () t) {file : File} (hfile : t.files plan.site = some file)
    {read : List Char} (hread : file.content = Plan.encode (String.ofList read)) :
    siteConfig isalnum domain read = .ok read := by
  have hcontent := ((wp_ok h).mp (plan.wp_install htree)).site
  rw [hfile,hplan] at hcontent
  have hsame : Plan.encode (String.ofList read) = Plan.encode (String.ofList proposed) := by
    rw [← hread]
    exact Option.some.inj hcontent
  have hlist : read = proposed := String.ofList_injective (encode_injective hsame)
  rw [hlist]
  exact siteConfig_fixed hascii hsite

end MaiaMeet
