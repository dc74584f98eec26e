import Reindent.Proofs.Command.Delivery

/-! Every run comes to an outcome, and what it may show. -/
namespace Reindent.Command

/-- What a run may show on the standard output: the result of its only input, or the tokens of its
first one if they are asked for. -/
inductive Shows (o : Options) (files : Files) (stdin : Bytes) : Bytes → Prop
  | nothing : Shows o files stdin []
  | tokens {name : Bytes} {rest : List Bytes} {file : File} {dump : Bytes}
    (hdebug : o.debug = true) (hfiles : o.files = name :: rest)
    (hread : readInput files stdin name = .ok file)
    (hdump : o.formatter.debug file.content = .ok dump) :
    Shows o files stdin (dump ++ [Bytes.newline])
  | result {name : Bytes} {file : File} {content : Bytes}
    (hdebug : o.debug = false) (hstdout : o.toStdout = true) (hfiles : o.files = [name])
    (hread : readInput files stdin name = .ok file)
    (hindent : o.formatter.indent file.content = .ok content) : Shows o files stdin content

section Runs
variable {o : Options} {files : Files} {stdin : Bytes} {schedule : List Nat}
  {limits : Nat → Option Limits}

/-- No document stops a run with an error that is not its own. -/
theorem process_ne_fatal (hwidth : 0 ≤ o.tabWidth) (name : Bytes) (e : Error) :
    process o files stdin schedule limits ≠ .error (.fatal name e) := by
  intro h
  exact absurd (stop_of_process hwidth h).1 (by simp)

theorem exists_debug {name : Bytes} {rest : List Bytes} {limits? : Option Limits}
    (hdebug : o.debug = true) (hfiles : o.files = name :: rest)
    (hrange : inRange o.formatter (readInput files stdin name) limits? = true) :
    ∃ out, debug o files stdin name limits? = .ok out ∧ Shows o files stdin out.stdout := by
  unfold debug
  cases hread : readInput files stdin name with
  | error e => exact ⟨_, rfl, .nothing⟩
  | ok file =>
    cases hdump : o.formatter.debug file.content limits? with
    | ok dump =>
      simp only [hdump]
      exact ⟨_, rfl, .tokens hdebug hfiles hread
        ((o.formatter.debug_within file.content limits?).of_ok hdump)⟩
    | error failure =>
      cases failure with
      | error e =>
        simp only [hdump]
        exact ⟨_, rfl, .nothing⟩
      | overrun =>
        have hout := inRange_eq_false_iff.2
          ⟨file, hread, Formatter.debug_eq_error_iff.1 hdump⟩
        exact absurd hrange (by simp [hout])

theorem print_shows (hwidth : 0 ≤ o.tabWidth) {name : Bytes} {jobs : List Job}
    (hdebug : o.debug = false) (hstdout : o.toStdout = true) (hfiles : o.files = [name])
    (hjobs : process o files stdin schedule limits = .ok jobs) :
    ∃ job, jobs = [job] ∧ Shows o files stdin (print o files job).stdout := by
  obtain ⟨verdict, rfl, hverdict⟩ := settles_of_single hwidth hfiles hjobs
  refine ⟨_, rfl, ?_⟩
  generalize hread : readInput files stdin name = input at hverdict
  cases hverdict with
  | unreadable e => exact .nothing
  | rejected h => exact .nothing
  | formatted hindent =>
    simp only [print]
    split_ifs
    · exact .nothing
    · exact .result hdebug hstdout hfiles hread ((o.formatter.indent_within _ _).of_ok hindent)

/-- Options that were accepted can be carried out. -/
theorem exists_execute (h : o.Accepted) (terminal : Bool)
    (hrange : ∀ task ∈ tasks o limits,
      inRange o.formatter (readInput files stdin task.name) task.limits? = true) :
    ∃ out, execute o files stdin terminal schedule limits = .ok out ∧
      Shows o files stdin out.stdout := by
  unfold execute
  by_cases hterminal : (o.stdinDefault && terminal) = true
  · rw [if_pos hterminal]
    exact ⟨_, rfl, .nothing⟩
  rw [if_neg hterminal]
  by_cases hdebug : o.debug = true
  · rw [if_pos hdebug]
    obtain ⟨name, rest, hfiles⟩ := List.exists_cons_of_ne_nil h.files
    simp only [hfiles]
    exact exists_debug hdebug hfiles (hrange ⟨name, limits 0⟩ (by simp [tasks, hfiles]))
  rw [if_neg hdebug]
  obtain ⟨jobs, hjobs⟩ : ∃ jobs, process o files stdin schedule limits = .ok jobs :=
    exists_process h.tabWidth hrange
  simp only [hjobs]
  by_cases hstdout : o.toStdout = true
  · rw [if_pos hstdout]
    have hneither : o.inPlace = false ∧ o.check = false := by
      simp only [Options.toStdout, Bool.and_eq_true, Bool.not_eq_true'] at hstdout
      exact hstdout.1
    obtain ⟨name, hfiles⟩ := h.single hneither.1 hneither.2
    obtain ⟨job, rfl, hshows⟩ := print_shows h.tabWidth (by simpa using hdebug) hstdout hfiles hjobs
    exact ⟨_, rfl, hshows⟩
  · rw [if_neg hstdout]
    exact ⟨_, rfl, .nothing⟩

end Runs

/-- Whatever the arguments, the configuration and the order of the work, and whichever tests of tags
are given up, a run comes to an outcome if its inputs are in range: it never misses its input, and no
error in a document is fatal. Results are shown only for a single input. -/
theorem run_safe (program : Bytes) (args : List Bytes) (files : Files) (stdin : Bytes)
    (terminal : Bool) (schedule : List Nat) (libraries : Libraries)
    (hrange : ∀ o, Options.parseWith libraries.decode program args files = .ok (some o) →
      ∀ task ∈ tasks o libraries.limits,
        inRange o.formatter (readInput files stdin task.name) task.limits? = true) :
    ∃ out, run program args files stdin terminal schedule libraries = .ok out ∧
      ∀ o, Options.parseWith libraries.decode program args files = .ok (some o) →
        o.version = false →
        o.Accepted ∧
        (∀ source limits? e, o.formatter.format source limits? = .error (.error e) →
          e.isSyntax = true) ∧
        (∀ name e,
          process o files stdin schedule libraries.limits ≠ .error (.fatal name e)) ∧
        Shows o files stdin out.stdout := by
  unfold run
  cases hparse : Options.parseWith libraries.decode program args files with
  | error e => exact ⟨_, rfl, by simp⟩
  | ok parsed =>
    cases parsed with
    | none => exact ⟨_, rfl, by simp⟩
    | some o =>
      cases hversion : o.version with
      | true => exact ⟨_, if_pos hversion, by simp [hversion]⟩
      | false =>
        have haccepted := Options.accepted_of_parse hparse hversion
        have hex : ∃ out, execute o files stdin terminal schedule libraries.limits = .ok out ∧ _ :=
          exists_execute haccepted terminal (hrange o hparse)
        obtain ⟨out, hexecute, hshows⟩ := hex
        refine ⟨out, (if_neg (by simp [hversion])).trans hexecute, ?_⟩
        rintro o' ho' -
        obtain rfl : o = o' := by simpa using ho'
        exact ⟨haccepted, fun source limits? e => Formatter.isSyntax_of_format haccepted.tabWidth,
          process_ne_fatal haccepted.tabWidth, hshows⟩

/-- A run with the standard input as two of its inputs, only one of which can have it, and with a
file whose tag is never fully tested. -/
def twiceOptions : Options :=
  { check := true, tabWidth := 2, output := dash, language := .css
    files := ["-", "-", "broken", "tag"].map Bytes.ascii }

def twiceFiles : Files :=
  { entries := [([Bytes.ascii "broken"], .file ⟨Bytes.ascii "\x7d", 0o644⟩),
      ([Bytes.ascii "tag"], .file ⟨Bytes.ascii " a \x7b% set b %\x7d", 0o644⟩),
      ([Bytes.ascii "pyproject.toml"],
        .file ⟨Bytes.ascii "[tool.djhtml]\ntabwidth = 2\n", 0o644⟩)] }

def twiceStdin : Bytes := Bytes.ascii "a \x7b\nb\n\x7d"

def twiceLibraries : Libraries :=
  { limits := fun i => if i = 3 then some ⟨fun _ _ _ => some (Bytes.ascii "timeout")⟩ else none }

theorem run_safe_twice :
    twiceOptions.Accepted ∧
    (process twiceOptions twiceFiles twiceStdin [1, 0, 1] twiceLibraries.limits).toOption.bind
      (·[3]?) = some ⟨Bytes.ascii "tag", .rejected
        (.lexical (Bytes.ascii "classifying \"\x7b% set b %\x7d\": timeout") 1 3)⟩ ∧
    ∃ out, run (Bytes.ascii "djcss") (["-c", "-", "-", "broken", "tag"].map Bytes.ascii) twiceFiles
      twiceStdin true [1, 0, 1] twiceLibraries = .ok out ∧
      Shows twiceOptions twiceFiles twiceStdin out.stdout := by
  have hparse : Options.parseWith twiceLibraries.decode (Bytes.ascii "djcss")
      (["-c", "-", "-", "broken", "tag"].map Bytes.ascii) twiceFiles = .ok (some twiceOptions) :=
    eq_ok_of_toOption (by decide +kernel)
  have hrange : ∀ task ∈ tasks twiceOptions twiceLibraries.limits, inRange twiceOptions.formatter
      (readInput twiceFiles twiceStdin task.name) task.limits? = true := by
    decide +kernel
  have hinputs : ∀ o, Options.parseWith twiceLibraries.decode (Bytes.ascii "djcss")
      (["-c", "-", "-", "broken", "tag"].map Bytes.ascii) twiceFiles = .ok (some o) →
      ∀ task ∈ tasks o twiceLibraries.limits,
        inRange o.formatter (readInput twiceFiles twiceStdin task.name) task.limits? = true := by
    intro o ho
    obtain rfl : twiceOptions = o := Option.some.inj (Except.ok.inj (hparse.symm.trans ho))
    exact hrange
  obtain ⟨out, hrun, hsafe⟩ := run_safe _ _ _ _ true [1, 0, 1] twiceLibraries hinputs
  obtain ⟨haccepted, -, -, hshows⟩ := hsafe twiceOptions hparse rfl
  exact ⟨haccepted, by decide +kernel, out, hrun, hshows⟩

end Reindent.Command
