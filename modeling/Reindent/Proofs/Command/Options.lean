import Mathlib.Data.List.Basic
import Reindent.Command.Options

/-! What options a command line can stand for. -/
namespace Reindent

theorem eq_ok_of_toOption {ε α : Type} {x : Except ε α} {a : α} (h : x.toOption = some a) :
    x = .ok a := by
  cases x with
  | error e => exact absurd h (by simp [Except.toOption])
  | ok b => rw [Option.some.inj h]

namespace Command

namespace Flags

section Reading
variable {f g : Flags} {arg text name value : Bytes} {setting : Setting} {rest : List Bytes}

/-- An argument that is a flag of the given name, with or without a value behind an equals sign. -/
structure Spells (arg name : Bytes) (value? : Option Bytes) (setting : Setting) : Prop where
  ne : arg ≠ [45, 45]
  text : ∃ text, text? arg = some text ∧ splitValue text = (name, value?) ∧
    (text.isEmpty || text.head? == some 45 || text.head? == some 61) = false
  setting : Setting.ofName? name = some setting

theorem parse_boolean (h : Spells arg name none setting) (hkind : setting.kind = .boolean) :
    parse f (arg :: rest) = parse (f.setBoolean setting true) rest := by
  obtain ⟨text, htext, hsplit, hform⟩ := h.text
  simp [parse, h.ne, htext, hsplit, hform, h.setting, hkind]

theorem parse_assigned (h : Spells arg name (some value) setting)
    (hset : f.set setting name value = .ok g) : parse f (arg :: rest) = parse g rest := by
  obtain ⟨text, htext, hsplit, hform⟩ := h.text
  simp [parse, h.ne, htext, hsplit, hform, h.setting, hset, bind, Except.bind]

theorem parse_separate (h : Spells arg name none setting) (hkind : setting.kind ≠ .boolean)
    (hset : f.set setting name value = .ok g) :
    parse f (arg :: value :: rest) = parse g rest := by
  obtain ⟨text, htext, hsplit, hform⟩ := h.text
  simp [parse, h.ne, htext, hsplit, hform, h.setting, hset, bind, Except.bind]

end Reading

/-- Flags are read from the front, whatever stands behind them. -/
theorem parse_front {f g : Flags} {args rest : List Bytes} (h : parse f args = .ok (g, rest)) :
    ∃ front, ∀ more, parse f (front ++ more) = parse g more := by
  fun_induction parse f args with
  | case1 f => exact ⟨[], by simp_all⟩
  | case2 f rest => exact ⟨[], by simp_all⟩
  | case3 f arg rest hne htext => exact ⟨[], by simp_all⟩
  | case4 => exact absurd h (by simp)
  | case5 => exact absurd h (by simp)
  | case6 => exact absurd h (by simp)
  | case7 f arg rest hne text htext hform name setting hsetting value hsplit ih =>
    cases hset : f.set setting name value with
    | error e =>
      rw [hset] at h
      exact absurd h (by simp [bind, Except.bind])
    | ok next =>
      rw [hset] at h
      obtain ⟨front, hfront⟩ := ih next h
      have hspells : Spells arg name (some value) setting :=
        ⟨hne, ⟨text, htext, hsplit, by simpa using hform⟩, hsetting⟩
      exact ⟨arg :: front, fun more => (parse_assigned hspells hset).trans (hfront more)⟩
  | case8 f arg rest hne text htext hform name setting hsetting hkind hsplit ih =>
    obtain ⟨front, hfront⟩ := ih h
    have hspells : Spells arg name none setting :=
      ⟨hne, ⟨text, htext, hsplit, by simpa using hform⟩, hsetting⟩
    exact ⟨arg :: front, fun more => (parse_boolean hspells hkind).trans (hfront more)⟩
  | case9 => exact absurd h (by simp)
  | case10 f arg hne text htext hform name setting hsetting value rest hkind hsplit ih =>
    cases hset : f.set setting name value with
    | error e =>
      rw [hset] at h
      exact absurd h (by simp [bind, Except.bind])
    | ok next =>
      rw [hset] at h
      obtain ⟨front, hfront⟩ := ih next h
      have hspells : Spells arg name none setting :=
        ⟨hne, ⟨text, htext, hsplit, by simpa using hform⟩, hsetting⟩
      exact ⟨arg :: value :: front,
        fun more => (parse_separate hspells hkind hset).trans (hfront more)⟩

theorem parse_inPlace (f : Flags) (rest : List Bytes) :
    parse f (Bytes.ascii "-i" :: Bytes.ascii "-c=false" :: [45, 45] :: rest) =
      .ok ({ f with inPlace := true, check := false }, rest) := by
  have hinPlace : Spells (Bytes.ascii "-i") (Bytes.ascii "i") none .inPlace :=
    ⟨by decide, ⟨Bytes.ascii "i", by decide, by decide, by decide⟩, by decide⟩
  have hcheck : Spells (Bytes.ascii "-c=false") (Bytes.ascii "c") (some (Bytes.ascii "false"))
      .check :=
    ⟨by decide, ⟨Bytes.ascii "c=false", by decide, by decide, by decide⟩, by decide⟩
  have hfalse : boolean? (Bytes.ascii "false") = some false := by decide
  have hset (f : Flags) : f.set .check (Bytes.ascii "c") (Bytes.ascii "false") =
      .ok { f with check := false } := by
    simp [set, Setting.kind, hfalse, setBoolean]
  rw [parse_boolean hinPlace rfl, parse_assigned hcheck (hset _), parse, if_pos rfl]
  rfl

end Flags

namespace Options
variable {decode : Bytes → Option (Option Int64)} {program : Bytes} {flags : Flags}
  {args : List Bytes} {files : Files} {o : Options}

theorem checkTabWidth_eq_ok_iff {width n : Int64} :
    checkTabWidth width = .ok n ↔ width = n ∧ 0 ≤ n := by
  unfold checkTabWidth
  split_ifs with hnegative
  · simp only [false_iff, not_and]
    rintro rfl
    exact fun h => Int64.not_lt.2 h hnegative
  · simp only [Except.ok.injEq, iff_self_and]
    rintro rfl
    exact Int64.not_lt.1 hnegative

theorem tabWidthWith_nonneg {width : Int64} (h : tabWidthWith decode flags files = .ok width) :
    0 ≤ width := by
  unfold tabWidthWith at h
  split at h
  · exact (checkTabWidth_eq_ok_iff.1 h).2
  · cases hproject : (Project.tabWidthWith decode files).mapError ArgumentError.project with
    | error e =>
      rw [hproject] at h
      exact absurd h (by simp [bind, Except.bind])
    | ok width? =>
      rw [hproject] at h
      exact (checkTabWidth_eq_ok_iff.1 h).2

theorem checkInputs_eq_ok_iff {inputs : List Bytes} :
    checkInputs flags inputs = .ok () ↔ (flags.inPlace = true → dash ∉ inputs) ∧
      (1 < inputs.length → flags.inPlace = true ∨ flags.check = true) := by
  unfold checkInputs
  split_ifs with hstdin hmany
  · simp only [Bool.and_eq_true, List.contains_iff_mem] at hstdin
    simp [hstdin]
  · simp only [Bool.and_eq_true, decide_eq_true_eq, Bool.not_eq_true'] at hmany
    simp [hmany]
  · simp only [Bool.and_eq_true, List.contains_iff_mem, decide_eq_true_eq,
      Bool.not_eq_true'] at hstdin hmany
    simp only [true_iff]
    refine ⟨fun hin hdash => hstdin ⟨hin, hdash⟩, fun hlength => ?_⟩
    by_contra hneither
    simp only [not_or, Bool.not_eq_true] at hneither
    exact hmany ⟨⟨hlength, hneither.1⟩, hneither.2⟩

theorem resolve_eq_ok_iff (hversion : flags.version = false) :
    resolveWith decode program flags args files = .ok o ↔ ∃ tabWidth language,
      tabWidthWith decode flags files = .ok tabWidth ∧ languageOf program flags = .ok language ∧
      checkInputs flags (inputsOf args) = .ok () ∧
      o = { inPlace := flags.inPlace, check := flags.check, quiet := flags.quiet
            debug := flags.debug, output := flags.output, extra := flags.extra, tabWidth, language
            files := inputsOf args, stdinDefault := args.isEmpty } := by
  unfold resolveWith
  simp only [hversion]
  cases tabWidthWith decode flags files with
  | error e => simp [bind, Except.bind]
  | ok tabWidth =>
    cases languageOf program flags with
    | error e => simp [bind, Except.bind]
    | ok language =>
      cases checkInputs flags (inputsOf args) with
      | error e => simp [bind, Except.bind]
      | ok u => simp [bind, Except.bind, eq_comm]

/-- What holds of all options that a command line stands for, unless it asks for the version. -/
structure Accepted (o : Options) : Prop where
  tabWidth : 0 ≤ o.tabWidth
  files : o.files ≠ []
  inPlace : o.inPlace = true → dash ∉ o.files
  many : 1 < o.files.length → o.inPlace = true ∨ o.check = true
  stdinDefault : o.stdinDefault = true → o.files = [dash]

/-- Only without named files is the standard input looked at before it is read. -/
theorem Accepted.terminal (h : o.Accepted) (hdash : dash ∉ o.files) (terminal : Bool) :
    (o.stdinDefault && terminal) = false := by
  cases hdefault : o.stdinDefault with
  | false => rfl
  | true =>
    rw [h.stdinDefault hdefault] at hdash
    exact absurd hdash (by simp)

theorem parse_eq_some_iff : parseWith decode program args files = .ok (some o) ↔ ∃ flags rest,
    Flags.parse {} args = .ok (flags, rest) ∧
      resolveWith decode program flags rest files = .ok o := by
  unfold parseWith
  split
  · next hhelp => simp [hhelp]
  · next e _ herror => simp [herror]
  · next flags rest hflags =>
    cases hresolve : resolveWith decode program flags rest files with
    | error e => simp [hflags, Except.map, hresolve]
    | ok resolved => simp [hflags, Except.map, hresolve]

theorem version_of_resolve (h : resolveWith decode program flags args files = .ok o) :
    o.version = flags.version := by
  cases hversion : flags.version with
  | true =>
    unfold resolveWith at h
    simp only [hversion, if_true] at h
    rw [← Except.ok.inj h]
  | false =>
    obtain ⟨_, _, _, _, _, rfl⟩ := (resolve_eq_ok_iff hversion).1 h
    rfl

theorem accepted_of_parse (h : parseWith decode program args files = .ok (some o))
    (hversion : o.version = false) : o.Accepted := by
  obtain ⟨flags, rest, -, hresolve⟩ := parse_eq_some_iff.1 h
  rw [version_of_resolve hresolve] at hversion
  obtain ⟨width, language, hwidth, -, hinputs, rfl⟩ := (resolve_eq_ok_iff hversion).1 hresolve
  obtain ⟨hstdin, hmany⟩ := checkInputs_eq_ok_iff.1 hinputs
  refine ⟨tabWidthWith_nonneg hwidth, ?_, hstdin, hmany, fun hempty => if_pos hempty⟩
  change inputsOf rest ≠ []
  unfold inputsOf
  split_ifs with hempty
  · simp
  · simpa using hempty

theorem exists_parse_inPlace (h : parseWith decode program args files = .ok (some o))
    (hversion : o.version = false) (hdash : dash ∉ o.files) :
    ∃ args', parseWith decode program args' files =
      .ok (some { o with inPlace := true, check := false }) := by
  obtain ⟨flags, rest, hflags, hresolve⟩ := parse_eq_some_iff.1 h
  rw [version_of_resolve hresolve] at hversion
  obtain ⟨width, language, hwidth, hlanguage, -, rfl⟩ := (resolve_eq_ok_iff hversion).1 hresolve
  obtain ⟨front, hfront⟩ := Flags.parse_front hflags
  -- The flags as they were, followed by flags that overrule them.
  refine ⟨front ++ Bytes.ascii "-i" :: Bytes.ascii "-c=false" :: [45, 45] :: rest,
    parse_eq_some_iff.2 ⟨{ flags with inPlace := true, check := false }, rest, ?_, ?_⟩⟩
  · rw [hfront, Flags.parse_inPlace]
  · refine (resolve_eq_ok_iff ?_).2 ⟨width, language, hwidth, hlanguage, ?_, ?_⟩
    · exact hversion
    · exact checkInputs_eq_ok_iff.2 ⟨fun _ => hdash, fun _ => .inl rfl⟩
    · rfl

end Options
end Command
end Reindent
