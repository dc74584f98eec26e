import Reindent.Proofs.Command.Jobs
import Reindent.Proofs.Command.Options
import Reindent.Proofs.Files

/-! Files that are modified in place. -/
namespace Reindent

/-- The file with its document reindented, if that has a result. -/
def File.reindented (f : Formatter) (file : File) : File :=
  match f.indent file.content with
  | .ok content => { file with content }
  | .error _ => file

def Entry.reindented (f : Formatter) : Entry → Entry
  | .file g => .file (g.reindented f)
  | .directory => .directory

theorem File.reindented_of_ok {f : Formatter} {file : File} {content : Bytes}
    (h : f.indent file.content = .ok content) : file.reindented f = { file with content } := by
  unfold File.reindented
  rw [h]

theorem File.reindented_of_error {f : Formatter} {file : File} {e : Failure}
    (h : f.indent file.content = .error e) : file.reindented f = file := by
  unfold File.reindented
  rw [h]

@[simp] theorem File.perm_reindented (f : Formatter) (file : File) :
    (file.reindented f).perm = file.perm := by
  cases h : f.indent file.content with
  | ok content => rw [reindented_of_ok h]
  | error e => rw [reindented_of_error h]

@[simp] theorem Entry.perm?_reindented (f : Formatter) (entry : Entry) :
    (entry.reindented f).perm? = entry.perm? := by
  cases entry with
  | directory => rfl
  | file g => exact congrArg some (g.perm_reindented f)

namespace Files

/-- A tree after the files that names lead to were reindented. -/
structure Reindented (f : Formatter) (names : List Bytes) (before after : Files) : Prop where
  cwd : after.cwd = before.cwd
  base : after.base = before.base
  named : ∀ name ∈ names, ∀ path entry, before.find name = .ok (.inside path, entry) →
    after.get? path = some (entry.reindented f)
  other : ∀ path, (∀ name ∈ names, ∀ entry, before.find name ≠ .ok (.inside path, entry)) →
    after.get? path = before.get? path

namespace Reindented
variable {f : Formatter} {names : List Bytes} {before after : Files} {name : Bytes}

theorem start (f : Formatter) (files : Files) : Reindented f [] files files :=
  ⟨rfl, rfl, fun _ h => absurd h (by simp), fun _ _ => rfl⟩

theorem get?_of_find {path : Path} {entry : Entry}
    (h : before.find name = .ok (.inside path, entry)) : before.get? path = some entry :=
  (find_eq_ok_iff.1 h).2.2

theorem alike (h : Reindented f names before after) : Alike before after where
  cwd := h.cwd
  base := h.base
  perm path := by
    by_cases hnamed : ∃ name ∈ names, ∃ entry, before.find name = .ok (.inside path, entry)
    · obtain ⟨name, hname, entry, hfind⟩ := hnamed
      rw [h.named name hname path entry hfind, get?_of_find hfind]
      simp
    · push Not at hnamed
      rw [h.other path hnamed]

theorem get?_cases (h : Reindented f names before after) {path : Path} {entry : Entry}
    (hfind : before.find name = .ok (.inside path, entry)) :
    after.get? path = some (entry.reindented f) ∨ after.get? path = some entry := by
  have hentry := get?_of_find hfind
  by_cases hnamed : ∃ name ∈ names, ∃ entry, before.find name = .ok (.inside path, entry)
  · obtain ⟨name', hname', entry', hfind'⟩ := hnamed
    obtain rfl : entry = entry' := Option.some.inj (hentry.symm.trans (get?_of_find hfind'))
    exact .inl (h.named name' hname' path entry hfind')
  · push Not at hnamed
    exact .inr ((h.other path hnamed).trans hentry)

theorem skip (h : Reindented f names before after)
    (hsame : ∀ path entry, before.find name = .ok (.inside path, entry) →
      entry.reindented f = entry) :
    Reindented f (names ++ [name]) before after := by
  refine ⟨h.cwd, h.base, fun name' hname' path entry hfind => ?_, fun path hother => ?_⟩
  · rcases List.mem_append.1 hname' with hname' | hname'
    · exact h.named name' hname' path entry hfind
    · obtain rfl := List.mem_singleton.1 hname'
      rcases h.get?_cases hfind with hget | hget
      · exact hget
      · rw [hget, hsame path entry hfind]
  · exact h.other path fun name' hname' => hother name' (List.mem_append_left _ hname')

theorem write (h : Reindented f names before after) {file : File} {content : Bytes}
    (hread : before.read name = .ok file) (hindent : f.indent file.content = .ok content)
    (perm : Nat) :
    ∃ next, after.write name content perm = .ok next ∧
      Reindented f (names ++ [name]) before next := by
  obtain ⟨place, hfind⟩ := read_eq_ok_iff.1 hread
  obtain ⟨path, rfl, hfile, -⟩ := target_of_find hfind
  -- The file may have been written under another name; it is still found at the same place.
  obtain ⟨current, hcurrent, hperm⟩ := h.alike.find_file hfind
  obtain ⟨path', hpath, hget, htarget⟩ := target_of_find hcurrent
  obtain rfl : path = path' := Place.inside.inj hpath
  have hnil := ne_nil_of_target htarget
  have hwritten : ((after.get? path).bind Entry.perm?).getD (mask perm) = file.perm := by
    rw [hget, ← hperm]
    rfl
  refine ⟨after.set path (.file { file with content }), ?_, h.cwd, h.base, ?_, ?_⟩
  · exact write_eq_ok_iff.2 ⟨path, htarget, by rw [hwritten]⟩
  · intro name' hname' path' entry hfind'
    rw [get?_set hnil]
    by_cases hpath' : path' = path
    · subst hpath'
      obtain rfl : Entry.file file = entry :=
        Option.some.inj (hfile.symm.trans (get?_of_find hfind'))
      rw [if_pos rfl, Entry.reindented, File.reindented_of_ok hindent]
    · rw [if_neg hpath']
      rcases List.mem_append.1 hname' with hname' | hname'
      · exact h.named name' hname' path' entry hfind'
      · obtain rfl := List.mem_singleton.1 hname'
        have hplace : (path, Entry.file file) = (path', entry) := by
          simpa using hfind.symm.trans hfind'
        exact absurd (congrArg Prod.fst hplace).symm hpath'
  · intro path' hother
    have hpath' : path' ≠ path := by
      rintro rfl
      exact hother name (by simp) _ hfind
    rw [get?_set hnil, if_neg hpath']
    exact h.other path' fun name' hname' => hother name' (List.mem_append_left _ hname')

theorem read (h : Reindented f names before after) (hname : name ∈ names) :
    after.read name = (before.read name).map (File.reindented f) := by
  have hperm := h.alike.read name
  cases hread : before.read name with
  | error e =>
    rw [hread] at hperm
    cases hafter : after.read name with
    | error e' =>
      rw [hafter] at hperm
      simpa [Except.map] using hperm
    | ok file =>
      rw [hafter] at hperm
      exact absurd hperm (by simp [Except.map])
  | ok file =>
    obtain ⟨place, hfind⟩ := read_eq_ok_iff.1 hread
    obtain ⟨path, rfl, -, -⟩ := target_of_find hfind
    obtain ⟨current, hcurrent, -⟩ := h.alike.find_file hfind
    have hget := h.named name hname path _ hfind
    have hsame : Entry.file current = (Entry.file file).reindented f :=
      Option.some.inj ((get?_of_find hcurrent).symm.trans hget)
    rw [read_eq_ok_iff.2 ⟨_, hcurrent⟩, Entry.file.inj hsame]
    rfl

end Reindented

theorem entry_of_read {files : Files} {name : Bytes} {file : File} {place : Place} {entry : Entry}
    (hread : files.read name = .ok file) (hfind : files.find name = .ok (place, entry)) :
    entry = .file file := by
  obtain ⟨place', hfile⟩ := read_eq_ok_iff.1 hread
  have hsame : (place', Entry.file file) = (place, entry) := by simpa using hfile.symm.trans hfind
  exact (congrArg Prod.snd hsame).symm

theorem directory_of_read {files : Files} {name : Bytes} {e : FileError} {place : Place}
    {entry : Entry} (hread : files.read name = .error e)
    (hfind : files.find name = .ok (place, entry)) : entry = .directory := by
  cases entry with
  | directory => rfl
  | file g => exact absurd (hread.symm.trans (read_eq_ok_iff.2 ⟨place, hfind⟩)) (by simp)

end Files

namespace Command
open Files

def fails (f : Formatter) (files : Files) (name : Bytes) : Bool :=
  match files.read name with
  | .error _ => true
  | .ok file => !(f.indent file.content).isOk

section Tally
variable {o : Options} {files : Files} {seen : List Bytes} {t : Tally}

/-- One job writes its own file and counts for itself. -/
theorem add_inPlace (hinPlace : o.inPlace = true) (hcheck : o.check = false) {name : Bytes}
    {verdict : Verdict} (h : Reindented o.formatter seen files t.files)
    (hsettles : Settles o.formatter none (files.read name) verdict) :
    Reindented o.formatter (seen ++ [name]) files (t.add o ⟨name, verdict⟩).files ∧
      (t.add o ⟨name, verdict⟩).problematic =
        t.problematic + if fails o.formatter files name then 1 else 0 := by
  generalize hread : files.read name = input at hsettles
  cases hsettles with
  | unreadable e =>
    refine ⟨h.skip fun path entry hfind => ?_, by simp [Tally.add, Tally.fail, fails, hread]⟩
    rw [directory_of_read hread hfind]
    rfl
  | @rejected file e hindent =>
    refine ⟨h.skip fun path entry hfind => ?_, ?_⟩
    · rw [entry_of_read hread hfind, Entry.reindented, File.reindented_of_error hindent]
    · simp [Tally.add, Tally.fail, fails, hread, hindent, Except.isOk, Except.toBool]
  | @formatted file content hindent =>
    have hfails : fails o.formatter files name = false := by
      simp [fails, hread, hindent, Except.isOk, Except.toBool]
    by_cases hsame : content = file.content
    · subst hsame
      rw [Tally.add_same, hfails]
      refine ⟨h.skip fun path entry hfind => ?_, rfl⟩
      rw [entry_of_read hread hfind, Entry.reindented, File.reindented_of_ok hindent]
    · obtain ⟨next, hwrite, hnext⟩ := h.write hread hindent (writePerm file.perm)
      have htarget : (if o.inPlace then name else o.output) = name := if_pos hinPlace
      rw [← htarget] at hwrite
      obtain ⟨stderr, hadd⟩ := Tally.add_written name hcheck hsame hwrite
      rw [hadd, hfails]
      exact ⟨hnext, rfl⟩

/-- All jobs together write the files of their inputs. -/
theorem foldl_inPlace (hinPlace : o.inPlace = true) (hcheck : o.check = false)
    {names : List Bytes} {jobs : List Job} (h : Reindented o.formatter seen files t.files)
    (hjobs : List.Forall₂ (fun name job => job.name = name ∧
      Settles o.formatter none (files.read name) job.verdict) names jobs) :
    Reindented o.formatter (seen ++ names) files (jobs.foldl (Tally.add o) t).files ∧
      (jobs.foldl (Tally.add o) t).problematic =
        t.problematic + names.countP (fails o.formatter files) := by
  induction hjobs generalizing seen t with
  | nil => exact ⟨by simpa using h, rfl⟩
  | @cons name job names jobs hjob _ ih =>
    obtain ⟨jobName, verdict⟩ := job
    obtain ⟨rfl, hsettles⟩ := hjob
    obtain ⟨hnext, hcount⟩ := add_inPlace hinPlace hcheck h hsettles
    obtain ⟨hfiles, hproblematic⟩ := ih hnext
    rw [List.append_assoc] at hfiles
    refine ⟨hfiles, ?_⟩
    rw [List.foldl_cons, hproblematic, hcount, List.countP_cons]
    omega

end Tally

section Runs
variable {decode : Bytes → Option (Option Int64)} {program : Bytes} {args : List Bytes}
  {files : Files} {o : Options}

theorem displayName_of_ne {name : Bytes} (h : name ≠ dash) : displayName name = name := if_neg h

theorem readInput_of_ne {stdin name : Bytes} (h : name ≠ dash) :
    readInput files stdin name = files.read name := if_neg h

theorem exists_jobs_named (hwidth : 0 ≤ o.tabWidth) (hdash : dash ∉ o.files)
    (hrange : ∀ name ∈ o.files, inRange o.formatter (files.read name) = true)
    (stdin : Bytes) (schedule : List Nat) :
    ∃ jobs, process o files stdin schedule = .ok jobs ∧
      List.Forall₂ (fun name job => job.name = name ∧
        Settles o.formatter none (files.read name) job.verdict) o.files jobs := by
  have hne : ∀ name ∈ o.files, name ≠ dash := fun name hname heq => hdash (heq ▸ hname)
  have hinputs : ∀ task ∈ tasks o (fun _ => none),
      inRange o.formatter (readInput files stdin task.name) task.limits? = true := by
    rw [tasks_free, List.forall_mem_map]
    intro name hname
    rw [readInput_of_ne (hne name hname)]
    exact hrange name hname
  obtain ⟨jobs, hprocess⟩ : ∃ jobs, process o files stdin schedule = .ok jobs :=
    exists_process hwidth hinputs
  have hjobs := settles_of_notShared hwidth (not_shared_of_notMem hdash) hprocess
  rw [tasks_free, List.forall₂_map_left_iff] at hjobs
  refine ⟨jobs, hprocess, ((List.forall₂_and_left _ _).2 ⟨hne, hjobs⟩).imp ?_⟩
  rintro name job ⟨hname, hjob⟩
  rwa [displayName_of_ne hname, readInput_of_ne hname] at hjob

/-- A run that modifies files in place reindents the files that it names. -/
theorem exists_reindented (hparse : Options.parseWith decode program args files = .ok (some o))
    (hinPlace : o.inPlace = true) (hcheck : o.check = false) (hdebug : o.debug = false)
    (hversion : o.version = false)
    (hrange : ∀ name ∈ o.files, inRange o.formatter (files.read name) = true)
    (stdin : Bytes) (terminal : Bool) (schedule : List Nat) :
    ∃ out, run program args files stdin terminal schedule { decode } = .ok out ∧
      Reindented o.formatter o.files files out.files ∧
      out.exit = o.files.countP (fails o.formatter files) := by
  have haccepted := Options.accepted_of_parse hparse hversion
  have hdash := haccepted.inPlace hinPlace
  have hstdout : o.toStdout = false := by simp [Options.toStdout, hinPlace]
  obtain ⟨jobs, hprocess, hjobs⟩ := exists_jobs_named haccepted.tabWidth hdash hrange stdin schedule
  obtain ⟨hfiles, hproblematic⟩ := foldl_inPlace (t := { files }) hinPlace hcheck
    (Reindented.start o.formatter files) hjobs
  have hrun := run_of_jobs { decode } hparse hversion
    (haccepted.terminal hdash terminal) hdebug hstdout hprocess rfl
  exact ⟨_, hrun, hfiles, by simp [hcheck, hproblematic]⟩

/-- Files that are modified in place hold their reindented documents, whatever the order of the
work; everything else is as it was. The status counts the inputs that could not be read or have no
result. -/
theorem run_inPlace (hparse : Options.parseWith decode program args files = .ok (some o))
    (hinPlace : o.inPlace = true) (hcheck : o.check = false) (hdebug : o.debug = false)
    (hversion : o.version = false)
    (hrange : ∀ name ∈ o.files, inRange o.formatter (files.read name) = true)
    (stdin : Bytes) (terminal : Bool) (schedule : List Nat) :
    ∃ out, run program args files stdin terminal schedule { decode } = .ok out ∧
      (∀ name ∈ o.files, ∀ file content, files.read name = .ok file →
        o.formatter.indent file.content = .ok content →
        out.files.read name = .ok { file with content }) ∧
      (∀ path, (∀ name ∈ o.files, ∀ file content,
        files.find name = .ok (.inside path, .file file) →
        o.formatter.indent file.content ≠ .ok content) →
        out.files.get? path = files.get? path) ∧
      files.Alike out.files ∧
      out.exit = o.files.countP (fails o.formatter files) := by
  obtain ⟨out, hrun, hfiles, hexit⟩ :=
    exists_reindented hparse hinPlace hcheck hdebug hversion hrange stdin terminal schedule
  refine ⟨out, hrun, ?_, ?_, hfiles.alike, hexit⟩
  · intro name hname file content hread hindent
    rw [hfiles.read hname, hread, Except.map, File.reindented_of_ok hindent]
  · intro path hother
    by_cases hnamed : ∃ name ∈ o.files, ∃ entry, files.find name = .ok (.inside path, entry)
    · obtain ⟨name, hname, entry, hfind⟩ := hnamed
      rw [hfiles.named name hname path entry hfind, Reindented.get?_of_find hfind]
      cases entry with
      | directory => rfl
      | file g =>
        cases hindent : o.formatter.indent g.content with
        | ok content => exact absurd hindent (hother name hname g content hfind)
        | error e => rw [Entry.reindented, File.reindented_of_error hindent]
    · push Not at hnamed
      exact hfiles.other path hnamed

/-- A page with two names, and one that does not nest. -/
def mixedFiles : Files :=
  { entries := [([Bytes.ascii "page"], .file ⟨Bytes.ascii "<p>\nx\n</p>", 0o600⟩),
      ([Bytes.ascii "broken"], .file ⟨Bytes.ascii "</p>", 0o644⟩)] }

def mixedOptions : Options :=
  { inPlace := true, output := dash
    files := ["page", "./page", "broken", "missing"].map Bytes.ascii }

theorem run_inPlace_mixedFiles :
    ∃ out, run (Bytes.ascii "djhtml") (["-i", "page", "./page", "broken", "missing"].map Bytes.ascii)
        mixedFiles [] false [2, 1, 0, 1] = .ok out ∧
      out.files.read (Bytes.ascii "page") = .ok ⟨Bytes.ascii "<p>\n    x\n</p>", 0o600⟩ ∧
      out.files.get? [Bytes.ascii "broken"] = mixedFiles.get? [Bytes.ascii "broken"] ∧
      out.exit = 2 := by
  have hparse : Options.parse (Bytes.ascii "djhtml")
      (["-i", "page", "./page", "broken", "missing"].map Bytes.ascii) mixedFiles =
      .ok (some mixedOptions) := eq_ok_of_toOption (by decide +kernel)
  have hrange : ∀ name ∈ mixedOptions.files,
      inRange mixedOptions.formatter (mixedFiles.read name) = true := by decide +kernel
  have hread : mixedFiles.read (Bytes.ascii "page") = .ok ⟨Bytes.ascii "<p>\nx\n</p>", 0o600⟩ :=
    eq_ok_of_toOption (by decide +kernel)
  have hindent : mixedOptions.formatter.indent (Bytes.ascii "<p>\nx\n</p>") =
      .ok (Bytes.ascii "<p>\n    x\n</p>") := eq_ok_of_toOption (by decide +kernel)
  have hbroken : (mixedOptions.formatter.indent (Bytes.ascii "</p>")).toOption = none := by
    decide +kernel
  obtain ⟨out, hrun, hnamed, hother, -, hexit⟩ :=
    run_inPlace hparse rfl rfl rfl rfl hrange [] false [2, 1, 0, 1]
  refine ⟨out, hrun, hnamed _ (by decide) _ _ hread hindent, hother _ ?_,
    hexit.trans (by decide +kernel)⟩
  intro name _ file content hfind hok
  have hfile : some (Entry.file ⟨Bytes.ascii "</p>", 0o644⟩) = some (.file file) :=
    Reindented.get?_of_find hfind
  obtain rfl := Entry.file.inj (Option.some.inj hfile)
  exact absurd (hbroken.symm.trans (congrArg Except.toOption hok)) (by simp [Except.toOption])

end Runs

end Command
end Reindent
