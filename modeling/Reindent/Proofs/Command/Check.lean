import Reindent.Proofs.Command.InPlace

/-! Checking files tells how many of them would be modified in place. -/
namespace Reindent.Command
open Files

/-- Whether an input can be read and its result differs from it. -/
def changes (f : Formatter) (files : Files) (name : Bytes) : Bool :=
  match files.read name with
  | .error _ => false
  | .ok file =>
    match f.indent file.content with
    | .ok content => content != file.content
    | .error _ => false

section Tally
variable {o : Options} {files : Files} {t : Tally}

theorem add_check (hcheck : o.check = true) {name : Bytes} {verdict : Verdict}
    (hsettles : Settles o.formatter none (files.read name) verdict) :
    (t.add o ⟨name, verdict⟩).files = t.files ∧
      (t.add o ⟨name, verdict⟩).changed =
        t.changed + if changes o.formatter files name then 1 else 0 := by
  generalize hread : files.read name = input at hsettles
  cases hsettles with
  | unreadable e => simp [Tally.add, Tally.fail, changes, hread]
  | @rejected file e hindent => simp [Tally.add, Tally.fail, changes, hread, hindent]
  | @formatted file content hindent =>
    by_cases hsame : content = file.content
    · simp [Tally.add, changes, hread, hindent, hsame]
    · simp [Tally.add, changes, hread, hindent, hsame, hcheck]

/-- Checking writes nothing and counts the inputs that would change. -/
theorem foldl_check (hcheck : o.check = true) {names : List Bytes} {jobs : List Job}
    (hjobs : List.Forall₂ (fun name job => job.name = name ∧
      Settles o.formatter none (files.read name) job.verdict) names jobs) :
    (jobs.foldl (Tally.add o) t).files = t.files ∧
      (jobs.foldl (Tally.add o) t).changed =
        t.changed + names.countP (changes o.formatter files) := by
  induction hjobs generalizing t with
  | nil => exact ⟨rfl, rfl⟩
  | @cons name job names jobs hjob _ ih =>
    obtain ⟨jobName, verdict⟩ := job
    obtain ⟨rfl, hsettles⟩ := hjob
    obtain ⟨hfiles, hcount⟩ := add_check (t := t) hcheck hsettles
    obtain ⟨hfiles', hcount'⟩ := ih (t := t.add o ⟨jobName, verdict⟩)
    rw [List.foldl_cons, hfiles', hcount', hfiles, hcount, List.countP_cons]
    exact ⟨rfl, by omega⟩

end Tally

section Runs
variable {decode : Bytes → Option (Option Int64)} {program : Bytes} {args : List Bytes}
  {files : Files} {o : Options}

theorem changes_iff {f : Formatter} {names : List Bytes} {after : Files}
    (h : Reindented f names files after) {name : Bytes} (hname : name ∈ names) :
    changes f files name = true ↔ (after.read name).toOption ≠ (files.read name).toOption := by
  rw [h.read hname]
  unfold changes
  cases files.read name with
  | error e => simp [Except.map, Except.toOption]
  | ok file =>
    cases hindent : f.indent file.content with
    | error e => simp [Except.map, Except.toOption, hindent, File.reindented_of_error hindent]
    | ok content =>
      rw [Except.map, File.reindented_of_ok hindent]
      obtain ⟨old, perm⟩ := file
      have hindent' : f.indent old = .ok content := hindent
      simp [Except.toOption, hindent']

/-- Checking leaves all files as they are, shows no results, and its status is the number of inputs
that the same options would rewrite with other content if they modified files in place. -/
theorem run_check (hparse : Options.parseWith decode program args files = .ok (some o))
    (hcheck : o.check = true) (hdebug : o.debug = false) (hversion : o.version = false)
    (hdash : dash ∉ o.files)
    (hrange : ∀ name ∈ o.files, inRange o.formatter (files.read name) = true)
    (stdin : Bytes) (terminal : Bool) (schedule : List Nat) :
    ∃ out, run program args files stdin terminal schedule { decode } = .ok out ∧
      out.files = files ∧ out.stdout = [] ∧ out.exit = o.files.countP (changes o.formatter files) ∧
      (∃ args', Options.parseWith decode program args' files =
        .ok (some { o with inPlace := true, check := false })) ∧
      ∀ args' schedule', Options.parseWith decode program args' files =
        .ok (some { o with inPlace := true, check := false }) →
        ∃ written, run program args' files stdin terminal schedule' { decode } = .ok written ∧
          out.exit = o.files.countP fun name =>
            (written.files.read name).toOption ≠ (files.read name).toOption := by
  have haccepted := Options.accepted_of_parse hparse hversion
  have hstdout : o.toStdout = false := by simp [Options.toStdout, hcheck]
  obtain ⟨jobs, hprocess, hjobs⟩ := exists_jobs_named haccepted.tabWidth hdash hrange stdin schedule
  obtain ⟨hfiles, hchanged⟩ := foldl_check (t := { files }) hcheck hjobs
  have hrun := run_of_jobs { decode } hparse hversion
    (haccepted.terminal hdash terminal) hdebug hstdout hprocess rfl
  have hexit : (jobs.foldl (Tally.add o) { files }).changed =
      o.files.countP (changes o.formatter files) := by
    rw [hchanged, Nat.zero_add]
  refine ⟨_, hrun, hfiles, rfl, by simpa [hcheck] using hexit,
    Options.exists_parse_inPlace hparse hversion hdash, fun args' schedule' hparse' => ?_⟩
  obtain ⟨written, hrun', hreindented, -⟩ :=
    exists_reindented hparse' rfl rfl hdebug hversion hrange stdin terminal schedule'
  have hwritten : Reindented o.formatter o.files files written.files := hreindented
  refine ⟨written, hrun', ?_⟩
  simp only [hcheck, if_true]
  rw [hexit]
  exact List.countP_congr fun name hname => by simpa using changes_iff hwritten hname

/-- A run that checks a page which it would change, a page that it would not, and a broken one. -/
def checkedOptions : Options :=
  { check := true, output := dash, files := ["page", "./page", "tidy", "broken"].map Bytes.ascii }

def checkedFiles : Files :=
  { entries := [([Bytes.ascii "page"], .file ⟨Bytes.ascii "<p>\nx\n</p>", 0o600⟩),
      ([Bytes.ascii "tidy"], .file ⟨Bytes.ascii "<p>\n    x\n</p>", 0o644⟩),
      ([Bytes.ascii "broken"], .file ⟨Bytes.ascii "</p>", 0o644⟩)] }

theorem run_check_page :
    ∃ out, run (Bytes.ascii "djhtml") (["-c", "page", "./page", "tidy", "broken"].map Bytes.ascii)
        checkedFiles [] false [] = .ok out ∧ out.files = checkedFiles ∧ out.exit = 2 := by
  have hparse : Options.parse (Bytes.ascii "djhtml")
      (["-c", "page", "./page", "tidy", "broken"].map Bytes.ascii) checkedFiles =
      .ok (some checkedOptions) := eq_ok_of_toOption (by decide +kernel)
  have hrange : ∀ name ∈ checkedOptions.files,
      inRange checkedOptions.formatter (checkedFiles.read name) = true := by decide +kernel
  obtain ⟨out, hrun, hfiles, -, hexit, -⟩ :=
    run_check hparse rfl rfl rfl (by decide) hrange [] false []
  exact ⟨out, hrun, hfiles, hexit.trans (by decide +kernel)⟩

end Runs
end Reindent.Command
