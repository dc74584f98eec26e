import Reindent.Proofs.Command.Flags
import Reindent.Proofs.Project

/-! The tab width of a run: the last flag for it counts first, then the nearest project file, then
the default. -/
namespace Reindent.Command.Options
open Bytes Directory Flags Project

/-- The tab width that flags and project files stand for, whether or not it is accepted. -/
inductive Effective (decode : Bytes → Option (Option Int64)) (given : List Given) (files : Files) :
    Int64 → Prop
  | flag {value w} : lastWidth? given = some value → Numeral.integer value = .ok w →
      Effective decode given files w
  | project {n f w} : lastWidth? given = none → Nearest files n →
      candidate? files n = some (.file f) → decode f.content = some (some w) →
      Effective decode given files w
  | unset {n f} : lastWidth? given = none → Nearest files n →
      candidate? files n = some (.file f) → decode f.content = some none →
      Effective decode given files 4
  | noProject : lastWidth? given = none → (∀ n ≤ files.cwd.length, candidate? files n = none) →
      Effective decode given files 4

section Resolution
variable {decode : Bytes → Option (Option Int64)} {program : Bytes} {flags : Flags}
  {args rest : List Bytes} {files other : Files} {top : Path} {given : List Given} {w : Int64}

/-- Flags that hold the tab width of the last flag for it, if there is one. -/
structure Holds (flags : Flags) (given : List Given) : Prop where
  none : lastWidth? given = none → flags.tabWidth? = none
  some : ∀ value, lastWidth? given = some value →
    ∃ w, Numeral.integer value = .ok w ∧ flags.tabWidth? = some w

theorem exists_given (hflags : Flags.parse {} args = .ok (flags, rest)) :
    ∃ given, (∀ given' rest', Gives args given' rest' ↔ given' = given ∧ rest' = rest) ∧
      Holds flags given := by
  obtain ⟨given, hgives, hall⟩ := amounts_of_parse hflags
  obtain ⟨hnone, hsome⟩ := tabWidth?_of_setAll hgives.setting hall
  refine ⟨given, fun given' rest' => ⟨fun h => ?_, ?_⟩, hnone, hsome⟩
  · obtain ⟨hgiven, hrest⟩ := hgives.unique h
    exact ⟨hgiven.symm, hrest.symm⟩
  · rintro ⟨rfl, rfl⟩
    exact hgives

theorem tabWidthWith_of_none (hnone : flags.tabWidth? = none) :
    tabWidthWith decode flags files =
      ((Project.tabWidthWith decode files).mapError ArgumentError.project).bind
        fun width? => checkTabWidth (width?.getD 4) := by
  unfold tabWidthWith
  rw [hnone]
  rfl

theorem Effective.tabWidthWith (h : Effective decode given files w) (hnames : files.Named top)
    (hholds : Holds flags given) : tabWidthWith decode flags files = checkTabWidth w := by
  cases h with
  | flag hlast hvalue =>
    obtain ⟨w', hvalue', hwidth⟩ := hholds.some _ hlast
    rw [hvalue] at hvalue'
    obtain rfl := Except.ok.inj hvalue'
    rw [Options.tabWidthWith, hwidth]
  | project hlast hnearest hfile hdecode =>
    rw [tabWidthWith_of_none (hholds.none hlast), tabWidthWith_of_nearest hnames hnearest, hfile,
      widthIn, hdecode]
    rfl
  | unset hlast hnearest hfile hdecode =>
    rw [tabWidthWith_of_none (hholds.none hlast), tabWidthWith_of_nearest hnames hnearest, hfile,
      widthIn, hdecode]
    rfl
  | noProject hlast hnone =>
    rw [tabWidthWith_of_none (hholds.none hlast), Project.tabWidthWith_of_none hnames hnone]
    rfl

/-- A tab width that comes out is the effective one. -/
theorem effective_of_tabWidthWith (h : tabWidthWith decode flags files = .ok w)
    (hnames : files.Named top) (hholds : Holds flags given) : Effective decode given files w := by
  cases hlast : lastWidth? given with
  | some value =>
    obtain ⟨w', hvalue, hwidth⟩ := hholds.some value hlast
    rw [tabWidthWith, hwidth] at h
    obtain ⟨rfl, -⟩ := checkTabWidth_eq_ok_iff.1 h
    exact .flag hlast hvalue
  | none =>
    rw [tabWidthWith_of_none (hholds.none hlast)] at h
    rcases nearest_or_none files with ⟨n, hnearest⟩ | hnone
    · rw [tabWidthWith_of_nearest hnames hnearest] at h
      cases hwidth : widthIn decode (files.absolute (files.cwd.take n ++ [fileName]))
          (candidate? files n) with
      | error e =>
        rw [hwidth] at h
        exact absurd h (by simp [Except.mapError, Except.bind])
      | ok width? =>
        rw [hwidth] at h
        obtain ⟨rfl, -⟩ := checkTabWidth_eq_ok_iff.1 h
        obtain ⟨f, hfile, hdecode⟩ := widthIn_eq_ok_iff.1 hwidth
        cases width? with
        | none => exact .unset hlast hnearest hfile hdecode
        | some w => exact .project hlast hnearest hfile hdecode
    · rw [Project.tabWidthWith_of_none hnames hnone] at h
      obtain ⟨rfl, -⟩ := checkTabWidth_eq_ok_iff.1 h
      exact .noProject hlast hnone

theorem parseWith_of_flags (hflags : Flags.parse {} args = .ok (flags, rest)) :
    parseWith decode program args files =
      (resolveWith decode program flags rest files).map some := by
  unfold parseWith
  rw [hflags]

theorem parseWith_congr (hflags : Flags.parse {} args = .ok (flags, rest))
    (h : tabWidthWith decode flags other = tabWidthWith decode flags files) :
    parseWith decode program args other = parseWith decode program args files := by
  rw [parseWith_of_flags hflags, parseWith_of_flags hflags]
  unfold resolveWith
  rw [h]

theorem parseWith_of_error (hflags : Flags.parse {} args = .ok (flags, rest))
    (hversion : flags.version = false) {e : ArgumentError}
    (h : tabWidthWith decode flags files = .error e) :
    parseWith decode program args files = .error e := by
  rw [parseWith_of_flags hflags]
  unfold resolveWith
  simp only [hversion, h]
  rfl

theorem tabWidthWith_of_parseWith (hflags : Flags.parse {} args = .ok (flags, rest))
    (hversion : flags.version = false) {o : Options}
    (h : parseWith decode program args files = .ok (some o)) :
    tabWidthWith decode flags files = .ok o.tabWidth := by
  obtain ⟨flags', rest', hflags', hresolve⟩ := parse_eq_some_iff.1 h
  rw [hflags] at hflags'
  obtain ⟨rfl, rfl⟩ := Prod.mk.inj (Except.ok.inj hflags')
  obtain ⟨width, language, hwidth, -, -, rfl⟩ := (resolve_eq_ok_iff hversion).1 hresolve
  exact hwidth

/-- The tab width of an accepted command line that does not ask for the version is the effective
one, and no other is effective. A negative one is rejected. Flags leave the files without a part in
it, and so does a project file the directories above it. From every directory the search for that
file ends after a bounded number of steps, at a directory that holds itself. -/
theorem tabWidth_resolved (decode : Bytes → Option (Option Int64)) (program : Bytes)
    (hnames : files.Named top) (hflags : Flags.parse {} args = .ok (flags, rest))
    (hversion : flags.version = false) :
    ∃ given, (∀ given' rest', Gives args given' rest' ↔ given' = given ∧ rest' = rest) ∧
      (∀ o, parseWith decode program args files = .ok (some o) →
        0 ≤ o.tabWidth ∧ ∀ w, Effective decode given files w ↔ w = o.tabWidth) ∧
      (∀ w, Effective decode given files w → w < 0 →
        parseWith decode program args files = .error (.tabWidth w)) ∧
      (lastWidth? given ≠ none → ∀ other,
        parseWith decode program args other = parseWith decode program args files) ∧
      (∀ n other, Nearest files n → other.cwd = files.cwd → other.base = files.base →
        (∀ m, n ≤ m → m ≤ files.cwd.length → candidate? other m = candidate? files m) →
        parseWith decode program args other = parseWith decode program args files) ∧
      ∀ dir, ∃ n ≤ dir.length + 1, parent^[n + 1] dir = parent^[n] dir ∧
        ∀ other, nearest? other dir = ((List.range (n + 1)).map fun k =>
          join (parent^[k] dir) fileName).find? fun name => (other.at? name).isSome := by
  obtain ⟨given, hunique, hholds⟩ := exists_given hflags
  refine ⟨given, hunique, ?accepted, ?negative, ?flag, ?above, ?search⟩
  case accepted =>
    intro o ho
    have hwidth := tabWidthWith_of_parseWith hflags hversion ho
    constructor
    · exact tabWidthWith_nonneg hwidth
    · intro w
      constructor
      · intro h
        rw [h.tabWidthWith hnames hholds] at hwidth
        exact (checkTabWidth_eq_ok_iff.1 hwidth).1
      · rintro rfl
        exact effective_of_tabWidthWith hwidth hnames hholds
  case negative =>
    intro w h hnegative
    apply parseWith_of_error hflags hversion
    rw [h.tabWidthWith hnames hholds, checkTabWidth, if_pos hnegative]
  case flag =>
    intro hlast other
    apply parseWith_congr hflags
    obtain ⟨value, hvalue⟩ := Option.ne_none_iff_exists'.1 hlast
    obtain ⟨w, -, hwidth⟩ := hholds.some value hvalue
    rw [tabWidthWith, tabWidthWith, hwidth]
  case above =>
    intro n other hnearest hcwd hbase hsame
    apply parseWith_congr hflags
    unfold tabWidthWith
    rw [tabWidthWith_congr hnames hnearest hcwd hbase hsame]
  case search =>
    intro dir
    obtain ⟨n, hn, hend, hsearch⟩ := nearest?_along dir
    exact ⟨n, Nat.le_trans hn (height_le dir), hend, hsearch⟩

end Resolution

/-- A working directory without a project file in a site with one, which sets a negative width. -/
def siteFiles : Files :=
  { entries := [([fileName], .file ⟨ascii "[tool.djhtml]\ntabwidth = 8", 0o644⟩),
      ([ascii "site"], .directory),
      ([ascii "site", fileName], .file ⟨ascii "[tool.djhtml]\ntabwidth = -3", 0o644⟩),
      ([ascii "site", ascii "app"], .directory)]
    cwd := [ascii "site", ascii "app"] }

/-- Without flags the site counts and not what is above it. The last of two flags overrules it. -/
theorem tabWidth_resolved_site :
    parse (ascii "djhtml") [] siteFiles = .error (.tabWidth (-3)) ∧
      ∃ given o, Gives (["-t", "9", "--tabwidth=2"].map ascii) given [] ∧
        parse (ascii "djhtml") (["-t", "9", "--tabwidth=2"].map ascii) siteFiles = .ok (some o) ∧
        o.tabWidth = 2 ∧ Effective tabWidth? given siteFiles 2 := by
  have hnames : siteFiles.Named [] := by
    refine ⟨List.forall_mem_nil _, ?_, rfl⟩
    intro part hpart
    simp only [siteFiles, List.mem_cons, List.not_mem_nil, or_false] at hpart
    rcases hpart with rfl | rfl
    · exact ⟨by decide, by decide, by decide, by decide⟩
    · exact ⟨by decide, by decide, by decide, by decide⟩
  constructor
  · have hflags : Flags.parse {} [] = .ok ({}, []) := rfl
    obtain ⟨given, hgiven, -, hnegative, -⟩ :=
      tabWidth_resolved tabWidth? (ascii "djhtml") hnames hflags rfl
    obtain ⟨rfl, -⟩ := (hgiven [] []).1 (.ends .nil)
    have hnearest : Nearest siteFiles 1 := by
      refine ⟨by decide, by decide, ?_⟩
      intro m hm hle
      obtain rfl : m = 2 := Nat.le_antisymm hle hm
      decide
    have hwidth : tabWidth? (ascii "[tool.djhtml]\ntabwidth = -3") = some (some (-3)) := by
      decide +kernel
    exact hnegative (-3) (.project rfl hnearest rfl hwidth) (by decide)
  · have hflags : Flags.parse {} (["-t", "9", "--tabwidth=2"].map ascii) =
        .ok ({ tabWidth? := some 2 }, []) := eq_ok_of_toOption (by decide +kernel)
    have hparse : parse (ascii "djhtml") (["-t", "9", "--tabwidth=2"].map ascii) siteFiles =
        .ok (some { tabWidth := 2, output := ascii "-", files := [dash], stdinDefault := true }) :=
      eq_ok_of_toOption (by decide +kernel)
    obtain ⟨given, hgiven, haccepted, -⟩ :=
      tabWidth_resolved tabWidth? (ascii "djhtml") hnames hflags rfl
    have heffective := ((haccepted _ hparse).2 2).2 rfl
    exact ⟨given, _, (hgiven given []).2 ⟨rfl, rfl⟩, hparse, rfl, heffective⟩
end Reindent.Command.Options
