import Mathlib.Data.List.Forall2
import Mathlib.Data.List.Nodup
import Reindent.Command.Run
import Reindent.Proofs.Command.Options
import Reindent.Proofs.Safety

/-! The jobs of a run: what becomes of an input does not depend on the order of the work. -/
namespace Reindent

namespace Formatter
variable {f : Formatter} {source : Bytes} {limits? : Option Limits}

theorem indent_eq_error_iff {e : Failure} :
    f.indent source limits? = .error e ↔ f.lines source limits? = .error e := by
  unfold indent
  cases f.lines source limits? <;> simp [bind, Except.bind]

theorem debug_eq_error_iff {e : Failure} :
    f.debug source limits? = .error e ↔ f.lines source limits? = .error e := by
  unfold debug debugWith
  cases f.lines source limits? <;> simp [bind, Except.bind]

theorem lines_nil_ne_overrun (hwidth : 0 ≤ f.tabWidth) :
    f.lines [] limits? ≠ .error .overrun := by
  have hfree : f.lines [] = .ok [{ number := 1 }] := by
    unfold lines
    rw [if_neg (Int64.not_lt.2 hwidth), parse_eq, Scan.tokenize_nil]
    rfl
  rcases f.lines_within [] limits? with ⟨e, h, -⟩ | h
  · rw [h]
    simp
  · rw [h, hfree]
    simp

/-- Without a negative tab width, a document has no result only because of what stands in it. -/
theorem isSyntax_of_lines {e : Error} (hwidth : 0 ≤ f.tabWidth)
    (h : f.lines source limits? = .error (.error e)) : e.isSyntax = true := by
  rcases f.lines_within source limits? with ⟨e', he, hgiven⟩ | hfree
  · obtain rfl : e' = e := by simpa using he.symm.trans h
    exact hgiven.isSyntax
  · rw [hfree, lines, if_neg (Int64.not_lt.2 hwidth), parse_eq] at h
    split at h
    · exact absurd h (by simp)
    · next read hread =>
      cases ha : Scope.assign read with
      | ok assigned => simp [ha, Except.mapError] at h
      | error fault =>
        obtain rfl : Error.structural fault.report = e := by simpa [ha, Except.mapError] using h
        rfl

theorem isSyntax_of_format {e : Error} (hwidth : 0 ≤ f.tabWidth)
    (h : f.format source limits? = .error (.error e)) : e.isSyntax = true := by
  cases hindent : f.indent source limits? with
  | ok out =>
    rw [format_of_indent hindent] at h
    exact absurd h (by simp)
  | error failure =>
    rw [format_of_error hindent, Except.error.injEq] at h
    rw [h] at hindent
    exact isSyntax_of_lines hwidth (indent_eq_error_iff.1 hindent)

end Formatter

namespace Command

/-- What an input comes to. -/
inductive Settles (f : Formatter) (limits? : Option Limits) :
    Except FileError File → Verdict → Prop
  | unreadable (e : FileError) : Settles f limits? (.error e) (.unreadable e)
  | rejected {file : File} {e : Error} (h : f.indent file.content limits? = .error (.error e)) :
    Settles f limits? (.ok file) (.rejected e)
  | formatted {file : File} {out : Bytes} (h : f.indent file.content limits? = .ok out) :
    Settles f limits? (.ok file) (.formatted file.perm ⟨out, out != file.content⟩)

/-- Whether the tokens of an input are in the range of its text. -/
def inRange (f : Formatter) (input : Except FileError File) (limits? : Option Limits := none) :
    Bool :=
  match input with
  | .error _ => true
  | .ok file =>
    match f.indent file.content limits? with
    | .error .overrun => false
    | _ => true

theorem inRange_eq_false_iff {f : Formatter} {input : Except FileError File}
    {limits? : Option Limits} : inRange f input limits? = false ↔
      ∃ file, input = .ok file ∧ f.lines file.content limits? = .error .overrun := by
  cases input with
  | error e => simp [inRange]
  | ok file =>
    simp only [inRange, Except.ok.injEq, exists_eq_left', ← Formatter.indent_eq_error_iff]
    split <;> simp_all

theorem inRange_nil {f : Formatter} (hwidth : 0 ≤ f.tabWidth) (files : Files)
    (limits? : Option Limits) : inRange f (readInput files [] dash) limits? = true := by
  rw [← Bool.not_eq_false, inRange_eq_false_iff]
  rintro ⟨file, hfile, hlines⟩
  obtain rfl := Except.ok.inj hfile
  exact Formatter.lines_nil_ne_overrun hwidth hlines

theorem judge_cases {f : Formatter} (hwidth : 0 ≤ f.tabWidth) (task : Task)
    (input : Except FileError File) :
    (∃ verdict, Settles f task.limits? input verdict ∧
      judge f task input = .ok ⟨displayName task.name, verdict⟩) ∨
      inRange f input task.limits? = false ∧ judge f task input = .error (.abort .overrun) := by
  cases input with
  | error e => exact .inl ⟨_, .unreadable e, rfl⟩
  | ok file =>
    unfold judge
    cases hindent : f.indent file.content task.limits? with
    | ok out =>
      left
      refine ⟨_, .formatted hindent, ?_⟩
      simp only [Formatter.format_of_indent hindent]
    | error failure =>
      have hformat := Formatter.format_of_error hindent
      cases failure with
      | overrun =>
        right
        refine ⟨by simp only [inRange, hindent], ?_⟩
        simp only [hformat]
      | error e =>
        left
        refine ⟨_, .rejected hindent, ?_⟩
        simp only [hformat, Formatter.isSyntax_of_format hwidth hformat, if_true]

/-- Two inputs are the standard input. -/
def Shared (names : List Bytes) : Prop :=
  ∃ i j : Nat, i ≠ j ∧ names[i]? = some dash ∧ names[j]? = some dash

/-- What may be read for an input: its content, or nothing if another input took the standard
input. -/
def Offers (files : Files) (stdin : Bytes) (names : List Bytes) (name : Bytes)
    (input : Except FileError File) : Prop :=
  input = readInput files stdin name ∨ Shared names ∧ input = readInput files [] name

/-- The work that an input may be at. -/
inductive Underway (f : Formatter) (files : Files) (stdin : Bytes) (names : List Bytes) :
    Task → Work → Prop
  | waiting (task : Task) : Underway f files stdin names task (.waiting task)
  | loaded {task : Task} {input : Except FileError File}
    (h : Offers files stdin names task.name input) :
    Underway f files stdin names task (.loaded task input)
  | done {task : Task} {input : Except FileError File} {job : Job}
    (h : Offers files stdin names task.name input) (hjudge : judge f task input = .ok job) :
    Underway f files stdin names task (.done job)
  | stopped {task : Task} : Underway f files stdin names task .stopped

theorem forall₂_set {α β : Type} {r : α → β → Prop} {as : List α} {bs : List β}
    (h : List.Forall₂ r as bs) {i : Nat} {a : α} {b : β} (ha : as[i]? = some a) (hb : r a b) :
    List.Forall₂ r as (bs.set i b) := by
  induction h generalizing i with
  | nil => exact absurd ha (by simp)
  | cons hhead _ ih =>
    cases i with
    | zero =>
      obtain rfl := Option.some.inj ha
      exact .cons hb ‹_›
    | succ i => exact .cons hhead (ih ha)

theorem forall₂_getElem? {α β : Type} {r : α → β → Prop} {as : List α} {bs : List β}
    (h : List.Forall₂ r as bs) {i : Nat} {b : β} (hb : bs[i]? = some b) :
    ∃ a, as[i]? = some a ∧ r a b := by
  induction h generalizing i with
  | nil => exact absurd hb (by simp)
  | cons hhead _ ih =>
    cases i with
    | zero =>
      obtain rfl := Option.some.inj hb
      exact ⟨_, rfl, hhead⟩
    | succ i => exact ih hb

namespace Work

def remaining : Work → Nat
  | waiting _ => 2
  | loaded _ _ => 1
  | done _ => 0
  | stopped => 0

end Work

namespace Desk
variable {f : Formatter} {files : Files}

/-- A step takes one from the work it is about and none from the others. -/
theorem remaining_advance (d : Desk) (i j : Nat) :
    ((d.advance f files i).works[j]?).map Work.remaining =
      (d.works[j]?).map fun work => work.remaining - if i = j then 1 else 0 := by
  have hset (work : Work) (next : Work) (hwork : d.works[i]? = some work)
      (hnext : next.remaining = work.remaining - 1) :
      ((d.works.set i next)[j]?).map Work.remaining =
        (d.works[j]?).map fun work => work.remaining - if i = j then 1 else 0 := by
    by_cases hij : i = j
    · subst hij
      have hlt : i < d.works.length := (List.getElem?_eq_some_iff.1 hwork).1
      simp [List.getElem?_set_self hlt, hwork, hnext]
    · simp [List.getElem?_set_ne hij, hij]
  unfold advance
  split
  · next name hwork => exact hset _ _ hwork rfl
  · next name input hwork =>
    split
    · exact hset _ _ hwork rfl
    · exact hset _ _ hwork rfl
  · next hwaiting hloaded =>
    by_cases hij : i = j
    · subst hij
      cases hwork : d.works[i]? with
      | none => rfl
      | some work =>
        cases work with
        | waiting name => exact absurd hwork (hwaiting name)
        | loaded name input => exact absurd hwork (hloaded name input)
        | done job => simp [Work.remaining]
        | stopped => simp [Work.remaining]
    · simp [hij]

theorem remaining_foldl (turns : List Nat) (d : Desk) (j : Nat) :
    ((turns.foldl (advance f files) d).works[j]?).map Work.remaining =
      (d.works[j]?).map fun work => work.remaining - turns.count j := by
  induction turns generalizing d with
  | nil => simp
  | cons i turns ih =>
    have hstep : ((d.advance f files i).works[j]?).map Work.remaining = _ :=
      d.remaining_advance i j
    rw [List.foldl_cons, ih, List.count_cons]
    cases hwork : d.works[j]? with
    | none =>
      rw [hwork] at hstep
      have hnone := Option.map_eq_none_iff.1 hstep
      rw [hnone]
      rfl
    | some work =>
      rw [hwork] at hstep
      obtain ⟨next, hnext, hremaining⟩ := Option.map_eq_some_iff.1 hstep
      rw [hnext, Option.map_some, Option.map_some, hremaining]
      simp only [beq_iff_eq, Option.some.injEq]
      omega

/-- What holds at any time while inputs are worked on. -/
structure Sound (f : Formatter) (files : Files) (input : Bytes) (given : List Task) (d : Desk) :
    Prop where
  works : List.Forall₂ (Underway f files input (given.map Task.name)) given d.works
  /-- The standard input is there until it is read. -/
  stdin : d.stdin = input ∨ d.stdin = [] ∧ ∃ (i : Nat) (task : Task), given[i]? = some task ∧
    task.name = dash ∧ ∀ waiting, d.works[i]? ≠ some (.waiting waiting)
  stop : ∀ s, d.stop? = some s → ∃ task ∈ given, ∃ content,
    Offers files input (given.map Task.name) task.name content ∧ judge f task content = .error s
  stopped : d.stop? = none → Work.stopped ∉ d.works

variable {input : Bytes} {given : List Task} {d : Desk}

theorem sound_start :
    Sound f files input given { stdin := input, works := given.map .waiting } where
  works := by
    rw [List.forall₂_map_right_iff]
    exact List.forall₂_same.2 fun task _ => .waiting task
  stdin := .inl rfl
  stop s h := absurd h (by simp)
  stopped _ := by simp

theorem Sound.offers (h : Sound f files input given d) {i : Nat} {task : Task}
    (hwork : d.works[i]? = some (.waiting task)) (htask : given[i]? = some task) :
    Offers files input (given.map Task.name) task.name (readInput files d.stdin task.name) := by
  rcases h.stdin with hstdin | ⟨hstdin, j, other, hj, hother, htaken⟩
  · rw [hstdin]
    exact .inl rfl
  · rw [hstdin]
    by_cases hdash : task.name = dash
    · have hij : i ≠ j := by
        rintro rfl
        exact htaken task hwork
      exact .inr ⟨⟨i, j, hij, by simp [htask, hdash], by simp [hj, hother]⟩, rfl⟩
    · left
      unfold readInput
      rw [if_neg hdash, if_neg hdash]

theorem Sound.taken (h : Sound f files input given d) {i : Nat} {next : Work}
    (hnext : ∀ waiting, next ≠ .waiting waiting) :
    d.stdin = input ∨ d.stdin = [] ∧ ∃ (j : Nat) (task : Task), given[j]? = some task ∧
      task.name = dash ∧ ∀ waiting, (d.works.set i next)[j]? ≠ some (.waiting waiting) := by
  refine h.stdin.imp_right fun ⟨hstdin, j, task, hj, htask, htaken⟩ =>
    ⟨hstdin, j, task, hj, htask, fun waiting => ?_⟩
  rw [List.getElem?_set]
  split_ifs
  · simpa using hnext waiting
  · simp
  · exact htaken waiting

theorem Sound.notMem_set (h : Sound f files input given d) {i : Nat} {next : Work}
    (hnext : next ≠ .stopped) (hstop : d.stop? = none) : Work.stopped ∉ d.works.set i next := by
  intro hmem
  rcases List.mem_or_eq_of_mem_set hmem with hmem | heq
  · exact h.stopped hstop hmem
  · exact hnext heq.symm

theorem Sound.advance (h : Sound f files input given d) (i : Nat) :
    Sound f files input given (d.advance f files i) := by
  unfold Desk.advance
  split
  · next task hwork =>
    obtain ⟨task', htask, hunder⟩ := forall₂_getElem? h.works hwork
    cases hunder with
    | waiting =>
    refine ⟨forall₂_set h.works htask (.loaded (h.offers hwork htask)), ?_, h.stop,
      h.notMem_set (by simp)⟩
    by_cases hdash : task.name = dash
    · have hlt : i < d.works.length := (List.getElem?_eq_some_iff.1 hwork).1
      right
      refine ⟨if_pos hdash, i, task, htask, hdash, ?_⟩
      simp [List.getElem?_set_self hlt]
    · rw [if_neg hdash]
      exact h.taken (by simp)
  · next task content hwork =>
    obtain ⟨task', htask, hunder⟩ := forall₂_getElem? h.works hwork
    cases hunder with
    | loaded hoffers =>
    split
    · next job hjudge =>
      exact ⟨forall₂_set h.works htask (.done hoffers hjudge), h.taken (by simp), h.stop,
        h.notMem_set (by simp)⟩
    · next s hjudge =>
      refine ⟨forall₂_set h.works htask .stopped, h.taken (by simp), fun s' hs' => ?_,
        fun hnone => absurd hnone (by cases d.stop? <;> simp)⟩
      cases hstop : d.stop? with
      | some first =>
        rw [hstop] at hs'
        exact h.stop s' (hstop.trans hs')
      | none =>
        rw [hstop] at hs'
        obtain rfl : s = s' := Option.some.inj hs'
        exact ⟨task, List.mem_of_getElem? htask, content, hoffers, hjudge⟩
  · exact h

theorem Sound.foldl (h : Sound f files input given d) (turns : List Nat) :
    Sound f files input given (turns.foldl (Desk.advance f files) d) := by
  induction turns generalizing d with
  | nil => exact h
  | cons i turns ih => exact ih (h.advance i)

theorem jobs_of_underway {names : List Bytes} {works : List Work}
    (h : List.Forall₂ (Underway f files input names) given works)
    (hover : ∀ work ∈ works, work.remaining = 0) (hstopped : Work.stopped ∉ works) :
    List.Forall₂ (fun task job => ∃ content,
      Offers files input names task.name content ∧ judge f task content = .ok job)
      given (works.filterMap Work.job?) := by
  induction h with
  | nil => exact .nil
  | @cons task work given works hunder _ ih =>
    rw [List.forall_mem_cons] at hover
    rw [List.mem_cons, not_or] at hstopped
    have hrest := ih hover.2 hstopped.2
    cases hunder with
    | waiting => exact absurd hover.1 (by simp [Work.remaining])
    | loaded hoffers => exact absurd hover.1 (by simp [Work.remaining])
    | done hoffers hjudge => exact .cons ⟨_, hoffers, hjudge⟩ hrest
    | stopped => exact absurd rfl hstopped.1

end Desk

theorem two_le_count (schedule : List Nat) {i n : Nat} (h : i < n) :
    2 ≤ (schedule ++ List.range n ++ List.range n).count i := by
  have hone : (List.range n).count i = 1 :=
    List.count_eq_one_of_mem List.nodup_range (List.mem_range.2 h)
  rw [List.count_append, List.count_append, hone]
  omega

section Tasks
variable (o : Options) (limits : Nat → Option Limits)

@[simp] theorem length_tasks : (tasks o limits).length = o.files.length := by simp [tasks]

@[simp] theorem names_tasks : (tasks o limits).map Task.name = o.files := by
  apply List.ext_getElem?
  simp [tasks, Function.comp_def]

theorem tasks_free : tasks o (fun _ => none) = o.files.map fun name => { name } := by
  apply List.ext_getElem?
  simp [tasks]

end Tasks

/-- Whatever the schedule, every input is judged by what is read for it, or one of them stops the
run. -/
theorem process_cases (o : Options) (files : Files) (stdin : Bytes) (schedule : List Nat)
    (limits : Nat → Option Limits) :
    (∃ s, process o files stdin schedule limits = .error s ∧ ∃ task ∈ tasks o limits, ∃ content,
      Offers files stdin o.files task.name content ∧ judge o.formatter task content = .error s) ∨
    ∃ jobs, process o files stdin schedule limits = .ok jobs ∧
      List.Forall₂ (fun task job => ∃ content,
        Offers files stdin o.files task.name content ∧ judge o.formatter task content = .ok job)
        (tasks o limits) jobs := by
  let turns := schedule ++ List.range o.files.length ++ List.range o.files.length
  let start : Desk := { stdin, works := (tasks o limits).map .waiting }
  let d := turns.foldl (Desk.advance o.formatter files) start
  have hprocess : process o files stdin schedule limits = d.jobs := rfl
  have hsound : d.Sound o.formatter files stdin (tasks o limits) :=
    Desk.sound_start.foldl turns
  -- The turns behind the schedule are enough for every input, whatever it was given before.
  have hover : ∀ work ∈ d.works, work.remaining = 0 := by
    intro work hwork
    obtain ⟨i, hi⟩ := List.mem_iff_getElem?.1 hwork
    have hremaining : (d.works[i]?).map Work.remaining =
        (start.works[i]?).map fun work => work.remaining - turns.count i :=
      Desk.remaining_foldl turns start i
    obtain ⟨task, htask, -⟩ := forall₂_getElem? hsound.works hi
    have hlt : i < o.files.length := by
      rw [← length_tasks o limits]
      exact (List.getElem?_eq_some_iff.1 htask).1
    have htwo : 2 ≤ turns.count i := two_le_count schedule hlt
    have hzero : 2 - turns.count i = 0 := by omega
    simpa [hi, start, htask, Work.remaining, hzero] using hremaining
  have hstop := hsound.stop
  have hworks := hsound.works
  rw [names_tasks] at hstop hworks
  rw [hprocess, Desk.jobs]
  cases hd : d.stop? with
  | some s => exact .inl ⟨s, rfl, hstop s hd⟩
  | none => exact .inr ⟨_, rfl, Desk.jobs_of_underway hworks hover (hsound.stopped hd)⟩

theorem not_shared_of_notMem {names : List Bytes} (h : dash ∉ names) : ¬Shared names :=
  fun ⟨_, _, _, hi, _⟩ => h (List.mem_of_getElem? hi)

theorem not_shared_single (name : Bytes) : ¬Shared [name] := by
  rintro ⟨i, j, hne, hi, hj⟩
  have hi' : i < 1 := (List.getElem?_eq_some_iff.1 hi).1
  have hj' : j < 1 := (List.getElem?_eq_some_iff.1 hj).1
  omega

theorem Offers.eq {files : Files} {stdin name : Bytes} {names : List Bytes}
    {input : Except FileError File} (h : Offers files stdin names name input)
    (hshared : ¬Shared names) : input = readInput files stdin name :=
  h.resolve_right fun h => hshared h.1

section Processing
variable {o : Options} {files : Files} {stdin : Bytes} {schedule : List Nat}
  {limits : Nat → Option Limits}

/-- A run is stopped only by an input whose tokens are out of range. -/
theorem stop_of_process (hwidth : 0 ≤ o.tabWidth) {s : Stop}
    (h : process o files stdin schedule limits = .error s) :
    s = .abort .overrun ∧ ∃ task ∈ tasks o limits, ∃ input,
      Offers files stdin o.files task.name input ∧
        inRange o.formatter input task.limits? = false := by
  rcases process_cases o files stdin schedule limits with
    ⟨s', hs', task, htask, input, hoffers, hjudge⟩ | ⟨jobs, hjobs, -⟩
  · obtain rfl : s = s' := Except.error.inj (h.symm.trans hs')
    rcases judge_cases (f := o.formatter) hwidth task input with ⟨v, -, hok⟩ | ⟨hrange, hstop⟩
    · exact absurd (hjudge.symm.trans hok) (by simp)
    · exact ⟨Except.error.inj (hjudge.symm.trans hstop), task, htask, input, hoffers, hrange⟩
  · exact absurd (h.symm.trans hjobs) (by simp)

theorem settles_of_process (hwidth : 0 ≤ o.tabWidth) {jobs : List Job}
    (h : process o files stdin schedule limits = .ok jobs) :
    List.Forall₂ (fun task job => ∃ input, Offers files stdin o.files task.name input ∧
      job.name = displayName task.name ∧ Settles o.formatter task.limits? input job.verdict)
      (tasks o limits) jobs := by
  rcases process_cases o files stdin schedule limits with ⟨s, hs, -⟩ | ⟨jobs', hjobs', hjudged⟩
  · exact absurd (h.symm.trans hs) (by simp)
  · obtain rfl : jobs = jobs' := Except.ok.inj (h.symm.trans hjobs')
    refine hjudged.imp fun task job ⟨input, hoffers, hjudge⟩ => ⟨input, hoffers, ?_⟩
    rcases judge_cases (f := o.formatter) hwidth task input with ⟨v, hsettles, hok⟩ | ⟨-, hstop⟩
    · obtain rfl : job = ⟨displayName task.name, v⟩ := Except.ok.inj (hjudge.symm.trans hok)
      exact ⟨rfl, hsettles⟩
    · exact absurd (hjudge.symm.trans hstop) (by simp)

/-- Inputs that are in range have their jobs, whatever the schedule and whoever gets the standard
input. -/
theorem exists_process (hwidth : 0 ≤ o.tabWidth)
    (hrange : ∀ task ∈ tasks o limits,
      inRange o.formatter (readInput files stdin task.name) task.limits? = true) :
    ∃ jobs, process o files stdin schedule limits = .ok jobs := by
  cases hprocess : process o files stdin schedule limits with
  | ok jobs => exact ⟨jobs, rfl⟩
  | error s =>
    obtain ⟨-, task, htask, input, hoffers, hout⟩ := stop_of_process hwidth hprocess
    have hin : inRange o.formatter input task.limits? = true := by
      rcases hoffers with rfl | ⟨-, rfl⟩
      · exact hrange task htask
      · -- Another input took the standard input, so there is nothing left to be out of range.
        by_cases hdash : task.name = dash
        · rw [hdash]
          exact inRange_nil hwidth files task.limits?
        · have hsame : readInput files [] task.name = readInput files stdin task.name := by
            simp [readInput, hdash]
          rw [hsame]
          exact hrange task htask
    exact absurd hin (by simp [hout])

/-- Unless inputs share the standard input, each is judged by its own content. -/
theorem settles_of_notShared (hwidth : 0 ≤ o.tabWidth) (hshared : ¬Shared o.files)
    {jobs : List Job} (h : process o files stdin schedule limits = .ok jobs) :
    List.Forall₂ (fun task job => job.name = displayName task.name ∧
      Settles o.formatter task.limits? (readInput files stdin task.name) job.verdict)
      (tasks o limits) jobs := by
  refine (settles_of_process hwidth h).imp ?_
  rintro task job ⟨input, hoffers, hjob⟩
  rwa [hoffers.eq hshared] at hjob

theorem settles_of_single (hwidth : 0 ≤ o.tabWidth) {name : Bytes} (hfiles : o.files = [name])
    {jobs : List Job} (h : process o files stdin schedule limits = .ok jobs) :
    ∃ verdict, jobs = [⟨displayName name, verdict⟩] ∧
      Settles o.formatter (limits 0) (readInput files stdin name) verdict := by
  have hshared : ¬Shared o.files := by
    rw [hfiles]
    exact not_shared_single name
  have hsettles := settles_of_notShared hwidth hshared h
  have htasks : tasks o limits = [⟨name, limits 0⟩] := by simp [tasks, hfiles]
  rw [htasks] at hsettles
  obtain ⟨⟨jobName, verdict⟩, rest, ⟨hname, hverdict⟩, hrest, rfl⟩ :=
    List.forall₂_cons_left_iff.1 hsettles
  obtain rfl := List.forall₂_nil_left_iff.1 hrest
  obtain rfl : jobName = displayName name := hname
  exact ⟨verdict, rfl, hverdict⟩

/-- What a run leaves behind once all jobs are done. -/
theorem run_of_jobs (libraries : Libraries) {program : Bytes} {args : List Bytes} {terminal : Bool}
    {jobs : List Job} {t : Tally}
    (hparse : Options.parseWith libraries.decode program args files = .ok (some o))
    (hversion : o.version = false) (hterminal : (o.stdinDefault && terminal) = false)
    (hdebug : o.debug = false) (hstdout : o.toStdout = false)
    (hjobs : process o files stdin schedule libraries.limits = .ok jobs)
    (htally : jobs.foldl (Tally.add o) { files } = t) :
    run program args files stdin terminal schedule libraries = .ok
      { exit := if o.check then t.changed else t.problematic
        stderr := t.stderr ++ summary o t, files := t.files } := by
  simp only [run, hparse, hversion, execute, hterminal, hdebug, hjobs, hstdout, htally,
    Bool.false_eq_true, if_false]

end Processing

namespace Tally

/-- A result that does not differ from its input is only counted. -/
theorem add_same (o : Options) (t : Tally) (jobName : Bytes) (file : File) :
    t.add o ⟨jobName, .formatted file.perm ⟨file.content, file.content != file.content⟩⟩ =
      { t with unchanged := t.unchanged + 1 } := by
  simp [add]

theorem add_written {o : Options} {t : Tally} {file : File} {content : Bytes} {after : Files}
    (jobName : Bytes) (hcheck : o.check = false) (hne : content ≠ file.content)
    (hwrite : t.files.write (if o.inPlace then jobName else o.output) content
      (writePerm file.perm) = .ok after) :
    ∃ stderr, t.add o ⟨jobName, .formatted file.perm ⟨content, content != file.content⟩⟩ =
      { t with files := after, changed := t.changed + 1, stderr } := by
  simp [add, hne, hcheck, hwrite]

end Tally

end Command
end Reindent
