import Reindent.Proofs.Command.Jobs
import Reindent.Proofs.Command.Options
import Reindent.Proofs.Files

/-! Where the result of a single input goes. -/
namespace Reindent.Command
open Files

theorem Options.Accepted.single {o : Options} (h : o.Accepted) (hinPlace : o.inPlace = false)
    (hcheck : o.check = false) : ∃ name, o.files = [name] := by
  have hlength : ¬1 < o.files.length := by
    intro hmany
    simpa [hinPlace, hcheck] using h.many hmany
  rw [← List.length_eq_one_iff]
  have hpos := List.length_pos_iff.2 h.files
  omega

/-- What is found after a run where its results were to go. -/
def delivered (o : Options) (out : Outcome) : Except FileError Bytes :=
  if o.output = dash then .ok out.stdout else (out.files.read o.output).map File.content

section Runs
variable {decode : Bytes → Option (Option Int64)} {program : Bytes} {args : List Bytes}
  {files : Files} {stdin : Bytes} {terminal : Bool}
  {schedule : List Nat} {o : Options} {name : Bytes} {file : File} {content : Bytes}

theorem run_of_print {job : Job} {jobs : List Job}
    (hparse : Options.parseWith decode program args files = .ok (some o))
    (hversion : o.version = false)
    (hterminal : (o.stdinDefault && terminal) = false) (hdebug : o.debug = false)
    (hstdout : o.toStdout = true)
    (hjobs : process o files stdin schedule = .ok (job :: jobs)) :
    run program args files stdin terminal schedule { decode } = .ok (print o files job) := by
  simp only [run, hparse, hversion, execute, hterminal, hdebug, hjobs, hstdout,
    Bool.false_eq_true, if_false, if_true]

theorem process_single (hwidth : 0 ≤ o.tabWidth) (hname : o.files = [name])
    (hread : readInput files stdin name = .ok file)
    (hindent : o.formatter.indent file.content = .ok content) :
    process o files stdin schedule = .ok
      [⟨displayName name, .formatted file.perm ⟨content, content != file.content⟩⟩] := by
  have hrange : ∀ task ∈ tasks o (fun _ => none),
      inRange o.formatter (readInput files stdin task.name) task.limits? = true := by
    simp [tasks_free, hname, hread, inRange, hindent]
  obtain ⟨jobs, hprocess⟩ : ∃ jobs, process o files stdin schedule = .ok jobs :=
    exists_process hwidth hrange
  obtain ⟨verdict, rfl, hsettles⟩ := settles_of_single hwidth hname hprocess
  rw [hread] at hsettles
  cases hsettles with
  | rejected hrejected => exact absurd (hindent.symm.trans hrejected) (by simp)
  | formatted hformatted =>
    obtain rfl := Except.ok.inj (hindent.symm.trans hformatted)
    exact hprocess

/-- A result that goes to a file is written if it differs from its input. -/
theorem add_output {t : Tally} {path : Path} (jobName : Bytes) (hinPlace : o.inPlace = false)
    (hcheck : o.check = false) (htarget : t.files.target o.output = .ok path) :
    ∃ next, t.add o ⟨jobName, .formatted file.perm ⟨content, content != file.content⟩⟩ = next ∧
      next.problematic = t.problematic ∧
      (content = file.content → next.files = t.files) ∧
      (content ≠ file.content → (next.files.read o.output).map File.content = .ok content) := by
  by_cases hsame : content = file.content
  · subst hsame
    exact ⟨_, Tally.add_same o t jobName file, rfl, fun _ => rfl, fun hne => absurd rfl hne⟩
  · obtain ⟨after, hwrite, hafter⟩ : ∃ after,
        t.files.write (if o.inPlace then jobName else o.output) content (writePerm file.perm) =
          .ok after ∧ (after.read o.output).map File.content = .ok content := by
      rw [hinPlace]
      refine ⟨_, write_eq_ok_iff.2 ⟨path, htarget, rfl⟩, ?_⟩
      rw [read_set htarget]
      rfl
    obtain ⟨stderr, hadd⟩ := Tally.add_written jobName hcheck hsame hwrite
    exact ⟨_, hadd, rfl, fun heq => absurd heq hsame, fun _ => hafter⟩

/-- The result of a single input is on the standard output if it goes there. In a file it is found
exactly if it differs from the input or was there before: a document that is indented already is
not written anywhere. -/
theorem run_delivers (hparse : Options.parseWith decode program args files = .ok (some o))
    (hinPlace : o.inPlace = false) (hcheck : o.check = false) (hdebug : o.debug = false)
    (hquiet : o.quiet = false) (hversion : o.version = false)
    (hname : name ∈ o.files) (hread : readInput files stdin name = .ok file)
    (hterminal : (o.stdinDefault && terminal) = false)
    (hindent : o.formatter.indent file.content = .ok content)
    (hwritable : o.output ≠ dash → ∃ path, files.target o.output = .ok path) :
    ∃ out, run program args files stdin terminal schedule { decode } = .ok out ∧ out.exit = 0 ∧
      (delivered o out = .ok content ↔ o.output = dash ∨ content ≠ file.content ∨
        (files.read o.output).map File.content = .ok content) ∧
      (o.output = dash ∨ content = file.content → out.files = files) := by
  have haccepted := Options.accepted_of_parse hparse hversion
  obtain ⟨only, honly⟩ := haccepted.single hinPlace hcheck
  obtain rfl : name = only := by simpa [honly] using hname
  have hprocess : process o files stdin schedule = _ :=
    process_single haccepted.tabWidth honly hread hindent
  by_cases hdash : o.output = dash
  · have hstdout : o.toStdout = true := by simp [Options.toStdout, hinPlace, hcheck, hdash]
    have hrun := run_of_print hparse hversion hterminal hdebug hstdout hprocess
    exact ⟨_, hrun, rfl, by simp [delivered, hdash, print, hquiet], fun _ => rfl⟩
  · have hstdout : o.toStdout = false := by simp [Options.toStdout, hdash]
    obtain ⟨path, htarget⟩ := hwritable hdash
    obtain ⟨next, hnext, hcount, hkept, hwritten⟩ : ∃ next, Tally.add o { files } _ = next ∧ _ :=
      add_output (displayName name) hinPlace hcheck htarget
    have hrun := run_of_jobs { decode } hparse hversion hterminal hdebug hstdout
      hprocess hnext
    refine ⟨_, hrun, by simpa [hcheck] using hcount, ?_, ?_⟩
    · by_cases hsame : content = file.content
      · simp [delivered, hdash, hsame, hkept hsame]
      · simp [delivered, hdash, hsame, hwritten hsame]
    · rintro (hout | hsame)
      · exact absurd hout hdash
      · exact hkept hsame

/-- A page that is indented already, and one that is not. -/
def draftFiles : Files :=
  { entries := [([Bytes.ascii "page"], .file ⟨Bytes.ascii "<p>\nx\n</p>", 0o600⟩),
      ([Bytes.ascii "tidy"], .file ⟨Bytes.ascii "<p>\n    x\n</p>", 0o600⟩)] }

/-- A result that goes to another file. -/
def copyOptions (name : String) : Options :=
  { output := Bytes.ascii "out", files := [Bytes.ascii name] }

theorem run_delivers_page :
    ∃ out, run (Bytes.ascii "djhtml") (["-o", "out", "page"].map Bytes.ascii) draftFiles [] false
        [0] = .ok out ∧ out.exit = 0 ∧
      delivered (copyOptions "page") out = .ok (Bytes.ascii "<p>\n    x\n</p>") := by
  have hparse : Options.parse (Bytes.ascii "djhtml") (["-o", "out", "page"].map Bytes.ascii)
      draftFiles = .ok (some (copyOptions "page")) := eq_ok_of_toOption (by decide +kernel)
  have hread : readInput draftFiles [] (Bytes.ascii "page") =
      .ok ⟨Bytes.ascii "<p>\nx\n</p>", 0o600⟩ := eq_ok_of_toOption (by decide +kernel)
  have hindent : (copyOptions "page").formatter.indent (Bytes.ascii "<p>\nx\n</p>") =
      .ok (Bytes.ascii "<p>\n    x\n</p>") := eq_ok_of_toOption (by decide +kernel)
  have htarget : draftFiles.target (Bytes.ascii "out") = .ok [Bytes.ascii "out"] :=
    eq_ok_of_toOption (by decide +kernel)
  have hruns : ∃ out, run (Bytes.ascii "djhtml") (["-o", "out", "page"].map Bytes.ascii) draftFiles
      [] false [0] = .ok out ∧ _ :=
    run_delivers hparse rfl rfl rfl rfl rfl (List.mem_singleton_self _) hread rfl hindent
      fun _ => ⟨_, htarget⟩
  obtain ⟨out, hrun, hexit, hdelivered, -⟩ := hruns
  exact ⟨out, hrun, hexit, hdelivered.2 (.inr (.inl (by decide)))⟩

/-- The same for the page that is indented already succeeds, but there is no such file then. -/
theorem run_delivers_tidy :
    Options.parse (Bytes.ascii "djhtml") (["-o", "out", "tidy"].map Bytes.ascii) draftFiles =
      .ok (some (copyOptions "tidy")) ∧
    ∃ file content out, readInput draftFiles [] (Bytes.ascii "tidy") = .ok file ∧
      (copyOptions "tidy").formatter.indent file.content = .ok content ∧
      draftFiles.target (Bytes.ascii "out") = .ok [Bytes.ascii "out"] ∧
      run (Bytes.ascii "djhtml") (["-o", "out", "tidy"].map Bytes.ascii) draftFiles [] false =
        .ok out ∧
      out.exit = 0 ∧ delivered (copyOptions "tidy") out ≠ .ok content := by
  have hparse : Options.parse (Bytes.ascii "djhtml") (["-o", "out", "tidy"].map Bytes.ascii)
      draftFiles = .ok (some (copyOptions "tidy")) := eq_ok_of_toOption (by decide +kernel)
  have hread : readInput draftFiles [] (Bytes.ascii "tidy") =
      .ok ⟨Bytes.ascii "<p>\n    x\n</p>", 0o600⟩ := eq_ok_of_toOption (by decide +kernel)
  have hindent : (copyOptions "tidy").formatter.indent (Bytes.ascii "<p>\n    x\n</p>") =
      .ok (Bytes.ascii "<p>\n    x\n</p>") := eq_ok_of_toOption (by decide +kernel)
  have htarget : draftFiles.target (Bytes.ascii "out") = .ok [Bytes.ascii "out"] :=
    eq_ok_of_toOption (by decide +kernel)
  have hrun : ((run (Bytes.ascii "djhtml") (["-o", "out", "tidy"].map Bytes.ascii) draftFiles []
      false).toOption.map fun out => (out.exit, (delivered (copyOptions "tidy") out).toOption)) =
      some (0, none) := by decide +kernel
  obtain ⟨out, hout, hleft⟩ := Option.map_eq_some_iff.1 hrun
  obtain ⟨hexit, hnone⟩ := Prod.mk.inj hleft
  refine ⟨hparse, _, _, out, hread, hindent, htarget, eq_ok_of_toOption hout, hexit, ?_⟩
  intro hdelivered
  rw [hdelivered] at hnone
  exact absurd hnone (by simp [Except.toOption])

end Runs
end Reindent.Command
