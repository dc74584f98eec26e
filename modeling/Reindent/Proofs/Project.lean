import Mathlib.Data.List.Basic
import Mathlib.Data.List.Induction
import Mathlib.Logic.Function.Iterate
import Reindent.Project

/-! The search for a project file. The way up from a directory is finite whatever its name is. From
the working directory it leads through the directories that hold it, and the first file of the right
name ends the search. -/
namespace Reindent
open Bytes

theorem Bytes.splitOn_of_notMem {mark : UInt8} {s : Bytes} (h : mark ∉ s) : splitOn mark s = [s] := by
  induction s with
  | nil => rfl
  | cons b s ih =>
    rw [List.mem_cons, not_or] at h
    rw [splitOn, if_neg (Ne.symm h.1), ih h.2]

namespace Directory

structure IsPart (part : Bytes) : Prop where
  ne_nil : part ≠ []
  slash : 47 ∉ part
  dot : part ≠ ascii "."
  dots : part ≠ ascii ".."

section Names
variable {parts : List Bytes} {part : Bytes}

theorem spell_append (a b : List Bytes) : spell (a ++ b) = spell a ++ spell b :=
  List.flatMap_append

theorem spell_singleton (part : Bytes) : spell [part] = 47 :: part :=
  List.flatMap_singleton (47 :: ·) part

theorem rooted_of_ne_nil (h : parts ≠ []) : rooted parts = spell parts := by
  rw [rooted, if_neg (by simpa using h)]

theorem splitOn_append_spell (hpart : 47 ∉ part) (h : ∀ p ∈ parts, 47 ∉ p) :
    splitOn 47 (part ++ spell parts) = part :: parts := by
  induction parts generalizing part with
  | nil =>
    rw [spell, List.flatMap_nil, List.append_nil]
    exact splitOn_of_notMem hpart
  | cons p ps ih =>
    have hrest := ih (h p List.mem_cons_self) fun q hq => h q (List.mem_cons_of_mem _ hq)
    change splitOn 47 (part ++ 47 :: (p ++ spell ps)) = _
    rw [splitOn_append, splitOn_of_notMem hpart, hrest]
    rfl

theorem splitOn_spell (h : ∀ p ∈ parts, IsPart p) : splitOn 47 (spell parts) = [] :: parts :=
  splitOn_append_spell List.not_mem_nil fun p hp => (h p hp).slash

theorem follow_of_isPart (fromTop : Bool) (parts : List Bytes) (h : IsPart part) :
    follow fromTop parts part = parts ++ [part] := by
  unfold follow
  simp [h.ne_nil, h.dot, h.dots]

theorem foldl_follow (fromTop : Bool) (start : List Bytes) (h : ∀ p ∈ parts, IsPart p) :
    parts.foldl (follow fromTop) start = start ++ parts := by
  induction parts generalizing start with
  | nil => exact (List.append_nil start).symm
  | cons p ps ih =>
    have hrest := ih (start ++ [p]) fun q hq => h q (List.mem_cons_of_mem _ hq)
    rw [List.foldl_cons, follow_of_isPart fromTop start (h p List.mem_cons_self), hrest,
      List.append_assoc]
    rfl

theorem clean_of_top {name : Bytes} (htop : name.head? = some 47)
    (hfold : (splitOn 47 name).foldl (follow true) [] = parts) : clean name = rooted parts := by
  rw [clean, htop, beq_self_eq_true, if_pos rfl, hfold]

theorem head?_spell_append (h : parts ≠ []) (s : Bytes) : (spell parts ++ s).head? = some 47 := by
  cases parts with
  | nil => exact absurd rfl h
  | cons p ps => rfl

theorem clean_spell (h : ∀ p ∈ parts, IsPart p) (hne : parts ≠ []) :
    clean (spell parts) = rooted parts := by
  apply clean_of_top
  · rw [← List.append_nil (spell parts)]
    exact head?_spell_append hne []
  · rw [splitOn_spell h]
    exact foldl_follow true [] h

theorem clean_spell_slash (h : ∀ p ∈ parts, IsPart p) :
    clean (spell parts ++ [47]) = rooted parts := by
  apply clean_of_top
  · cases parts with
    | nil => rfl
    | cons p ps => rfl
  · rw [splitOn_append, splitOn_spell h, List.foldl_append]
    exact foldl_follow true [] h

theorem front_append (init : Bytes) (h : 47 ∉ part) :
    front (init ++ 47 :: part) = init ++ [47] := by
  have hpart : ∀ b ∈ part.reverse, (b != 47) = true := by
    intro b hb
    rw [bne_iff_ne]
    rintro rfl
    exact h (List.mem_reverse.1 hb)
  rw [front, List.reverse_append, List.reverse_cons, List.append_assoc,
    List.dropWhile_append_of_pos hpart]
  simp

/-- The directory that holds a place is named by all parts but the last. -/
theorem parent_rooted (h : ∀ p ∈ parts, IsPart p) :
    parent (rooted parts) = rooted parts.dropLast := by
  rcases List.eq_nil_or_concat' parts with rfl | ⟨init, p, rfl⟩
  · decide
  · have hp : IsPart p := h p (by simp)
    have hinit : ∀ q ∈ init, IsPart q := fun q hq => h q (List.mem_append_left _ hq)
    rw [rooted_of_ne_nil (by simp), spell_append, spell_singleton, parent, front_append _ hp.slash,
      clean_spell_slash hinit, List.dropLast_concat]

theorem join_rooted (h : ∀ p ∈ parts, IsPart p) (hpart : IsPart part) :
    join (rooted parts) part = rooted (parts ++ [part]) := by
  have hall : ∀ p ∈ parts ++ [part], IsPart p :=
    List.forall_mem_append.2 ⟨h, List.forall_mem_singleton.2 hpart⟩
  by_cases hne : parts = []
  · subst hne
    have hsplit : splitOn 47 (47 :: 47 :: part) = [[], [], part] := by
      rw [splitOn, if_pos rfl, splitOn, if_pos rfl, splitOn_of_notMem hpart.slash]
    change clean (47 :: 47 :: part) = _
    apply clean_of_top rfl
    rw [hsplit]
    exact follow_of_isPart true [] hpart
  · have hspell : rooted parts ++ 47 :: part = spell (parts ++ [part]) := by
      rw [rooted_of_ne_nil hne, spell_append, spell_singleton]
    have hsome : (rooted parts).isEmpty = false := by
      rw [rooted_of_ne_nil hne]
      cases parts with
      | nil => exact absurd rfl hne
      | cons p ps => rfl
    rw [join, hsome, if_neg (by simp), hspell]
    exact clean_spell hall (by simp)

/-- Only the top holds itself. -/
theorem parent_rooted_eq_iff (h : ∀ p ∈ parts, IsPart p) :
    parent (rooted parts) = rooted parts ↔ parts = [] := by
  rcases List.eq_nil_or_concat' parts with rfl | ⟨init, p, rfl⟩
  · exact iff_of_true (by decide) rfl
  · have hp : 0 < p.length := List.length_pos_iff.2 (h p (by simp)).ne_nil
    have hlength : (rooted init).length ≤ (spell init).length + 1 := by
      unfold rooted
      split_ifs
      · exact Nat.le_add_left 1 _
      · exact Nat.le_succ _
    have hne : rooted init ≠ rooted (init ++ [p]) := by
      intro heq
      have hsame := congrArg List.length heq
      rw [@rooted_of_ne_nil (init ++ [p]) (by simp), spell_append, spell_singleton,
        List.length_append, List.length_cons] at hsame
      omega
    rw [parent_rooted h, List.dropLast_concat]
    exact iff_of_false hne (by simp)

end Names
end Directory

namespace Files
open Directory
variable {files : Files} {top path : Path}

/-- The parts of the names of the working directory, and of the place called `base`, at which the
tree hangs. -/
structure Named (files : Files) (top : Path) : Prop where
  above : ∀ part ∈ top, IsPart part
  cwd : ∀ part ∈ files.cwd, IsPart part
  base : files.base = spell top

theorem spell_eq_join (hne : path ≠ []) : spell path = 47 :: Bytes.join [47] path := by
  induction path with
  | nil => exact absurd rfl hne
  | cons p ps ih =>
    cases ps with
    | nil => rw [spell_singleton, Bytes.join]
    | cons q qs =>
      have hjoin : Bytes.join [47] (p :: q :: qs) = p ++ [47] ++ Bytes.join [47] (q :: qs) := rfl
      have hspell : spell (p :: q :: qs) = 47 :: (p ++ spell (q :: qs)) := rfl
      rw [hspell, ih (by simp), hjoin, List.append_assoc]
      rfl

theorem absolute_eq (hbase : files.base = spell top) (hne : path ≠ []) :
    files.absolute path = spell (top ++ path) := by
  have hslash : ascii "/" = [47] := rfl
  rw [absolute, hbase, hslash, spell_append, spell_eq_join hne, List.append_assoc]
  rfl

theorem workingName_eq (h : files.Named top) : files.workingName = rooted (top ++ files.cwd) := by
  by_cases hcwd : files.cwd = []
  · have habsolute : files.absolute files.cwd = spell top ++ [47] := by
      rw [absolute, h.base, hcwd]
      exact List.append_nil _
    rw [workingName, habsolute, hcwd, List.append_nil]
    exact clean_spell_slash h.above
  · rw [workingName, absolute_eq h.base hcwd]
    exact clean_spell (List.forall_mem_append.2 ⟨h.above, h.cwd⟩) (by simp [hcwd])

theorem foldl_pathOf (start : Path) {parts : Path} (h : ∀ p ∈ parts, IsPart p) :
    parts.foldl (fun path part =>
      if part.isEmpty || part == ascii "." then path
      else if part == ascii ".." then path.dropLast
      else path ++ [part]) start = start ++ parts := by
  induction parts generalizing start with
  | nil => exact (List.append_nil start).symm
  | cons p ps ih =>
    have hp := h p List.mem_cons_self
    have hrest := ih (start ++ [p]) fun q hq => h q (List.mem_cons_of_mem _ hq)
    rw [List.append_assoc] at hrest
    simpa [hp.ne_nil, hp.dot, hp.dots] using hrest

theorem at?_below (hbase : files.base = spell top) (hpath : ∀ p ∈ path, IsPart p)
    (hne : path ≠ []) : files.at? (spell (top ++ path)) = files.get? path := by
  cases path with
  | nil => exact absurd rfl hne
  | cons p ps =>
    have hsplit : splitOn 47 (p ++ spell ps) = p :: ps :=
      splitOn_append_spell (hpath p List.mem_cons_self).slash
        fun q hq => (hpath q (List.mem_cons_of_mem _ hq)).slash
    have hpathOf : pathOf (p ++ spell ps) = p :: ps := by
      rw [pathOf, hsplit]
      exact foldl_pathOf [] hpath
    have hafter : after? (files.base ++ [47]) (spell (top ++ p :: ps)) = some (p ++ spell ps) := by
      have hspell : spell (top ++ p :: ps) = files.base ++ [47] ++ (p ++ spell ps) := by
        rw [spell_append, hbase, List.append_assoc]
        rfl
      rw [after?, hspell, if_pos (by simp), List.drop_left]
    rw [at?, hafter, Option.bind_some, hpathOf]

theorem count_spell {parts : List Bytes} (h : ∀ p ∈ parts, IsPart p) :
    (spell parts).count 47 = parts.length := by
  induction parts with
  | nil => rfl
  | cons p ps ih =>
    have hp := List.count_eq_zero.2 (h p List.mem_cons_self).slash
    have hrest := ih fun q hq => h q (List.mem_cons_of_mem _ hq)
    change (47 :: (p ++ spell ps)).count 47 = _
    rw [List.count_cons_self, List.count_append, hp, hrest, Nat.zero_add, List.length_cons]

theorem at?_above (h : files.Named top) {parts : List Bytes} (hparts : ∀ p ∈ parts, IsPart p)
    (hlength : parts.length ≤ top.length) : files.at? (spell parts) = none := by
  have hafter : after? (files.base ++ [47]) (spell parts) = none := by
    rw [after?, if_neg]
    intro hprefix
    have hsub := (List.isPrefixOf_iff_prefix.1 hprefix).sublist.count_le 47
    rw [h.base, List.count_append, count_spell h.above, count_spell hparts] at hsub
    have hone : List.count (47 : UInt8) [47] = 1 := rfl
    omega
  rw [at?, hafter]
  rfl

end Files

namespace Project
open Directory

section Search
variable {files : Files} {parts : List Bytes} {n : Nat}

theorem isPart_fileName : IsPart fileName where
  ne_nil := by decide
  slash := by decide
  dot := by decide
  dots := by decide

theorem nearest?_rooted (files : Files) (h : ∀ p ∈ parts, IsPart p) :
    nearest? files (rooted parts) =
      if (files.at? (spell (parts ++ [fileName]))).isSome then some (spell (parts ++ [fileName]))
      else if parts = [] then none
      else nearest? files (rooted parts.dropLast) := by
  have hjoin : join (rooted parts) fileName = spell (parts ++ [fileName]) := by
    rw [join_rooted h isPart_fileName, rooted_of_ne_nil (by simp)]
  rw [nearest?, hjoin]
  simp only [parent_rooted_eq_iff h]
  rw [parent_rooted h]

/-- The search goes up to the first directory with a project file. -/
theorem nearest?_eq_some (h : ∀ p ∈ parts, IsPart p) (hn : n ≤ parts.length)
    (hfound : (files.at? (spell (parts.take n ++ [fileName]))).isSome = true)
    (hbelow : ∀ m, n < m → m ≤ parts.length →
      files.at? (spell (parts.take m ++ [fileName])) = none) :
    nearest? files (rooted parts) = some (spell (parts.take n ++ [fileName])) := by
  induction parts using List.reverseRecOn with
  | nil =>
    rw [List.take_nil] at hfound ⊢
    rw [nearest?_rooted files h, if_pos hfound]
  | append_singleton ps p ih =>
    rw [List.length_append, List.length_singleton] at hn hbelow
    rw [nearest?_rooted files h]
    by_cases hlast : n = ps.length + 1
    · have hwhole : (ps ++ [p]).take n = ps ++ [p] := List.take_of_length_le (by simp [hlast])
      rw [hwhole] at hfound ⊢
      rw [if_pos hfound]
    · have hhere := hbelow (ps.length + 1) (by omega) (Nat.le_refl _)
      have hwhole : (ps ++ [p]).take (ps.length + 1) = ps ++ [p] :=
        List.take_of_length_le (by simp)
      have htake : ∀ m ≤ ps.length, (ps ++ [p]).take m = ps.take m := fun m hm =>
        List.take_append_of_le_length hm
      rw [hwhole] at hhere
      rw [hhere, if_neg (by simp), if_neg (by simp), List.dropLast_concat]
      rw [htake n (by omega)] at hfound ⊢
      apply ih (fun q hq => h q (List.mem_append_left _ hq)) (by omega) hfound
      intro m hm hle
      rw [← htake m hle]
      exact hbelow m hm (by omega)

theorem nearest?_eq_none (h : ∀ p ∈ parts, IsPart p)
    (hnone : ∀ m ≤ parts.length, files.at? (spell (parts.take m ++ [fileName])) = none) :
    nearest? files (rooted parts) = none := by
  induction parts using List.reverseRecOn with
  | nil =>
    have hhere := hnone 0 (Nat.le_refl _)
    rw [List.take_nil] at hhere
    rw [nearest?_rooted files h, hhere]
    rfl
  | append_singleton ps p ih =>
    rw [List.length_append, List.length_singleton] at hnone
    have hhere := hnone (ps.length + 1) (Nat.le_refl _)
    rw [List.take_of_length_le (by simp)] at hhere
    rw [nearest?_rooted files h, hhere, if_neg (by simp), if_neg (by simp), List.dropLast_concat]
    apply ih fun q hq => h q (List.mem_append_left _ hq)
    intro m hm
    have hm' := hnone m (by omega)
    rwa [List.take_append_of_le_length hm] at hm'

end Search

/-- What has the name of a project file in the directory `n` steps below the top of the tree, on the
way to the working directory. -/
def candidate? (files : Files) (n : Nat) : Option Entry :=
  files.get? (files.cwd.take n ++ [fileName])

/-- The nearest directory with a project file, from the working directory upwards. -/
structure Nearest (files : Files) (n : Nat) : Prop where
  le : n ≤ files.cwd.length
  found : (candidate? files n).isSome = true
  below : ∀ m, n < m → m ≤ files.cwd.length → candidate? files m = none

section Width
variable {files other : Files} {top : Path} {n : Nat} {decode : Bytes → Option (Option Int64)}

theorem widthIn_eq_ok_iff {name : Bytes} {found : Option Entry} {width? : Option Int64} :
    widthIn decode name found = .ok width? ↔
      ∃ f, found = some (.file f) ∧ decode f.content = some width? := by
  unfold widthIn
  split
  · next f =>
    cases hdecode : decode f.content with
    | none => simp [hdecode]
    | some width => simp [hdecode]
  · next hfile =>
    refine iff_of_false (by simp) ?_
    rintro ⟨f, hf, -⟩
    exact hfile f hf

theorem nearest_or_none (files : Files) :
    (∃ n, Nearest files n) ∨ ∀ n ≤ files.cwd.length, candidate? files n = none := by
  have hsearch : ∀ k ≤ files.cwd.length,
      (∀ m, k < m → m ≤ files.cwd.length → candidate? files m = none) →
      (∃ n, Nearest files n) ∨ ∀ n ≤ files.cwd.length, candidate? files n = none := by
    intro k hk hbelow
    induction k with
    | zero =>
      cases hzero : (candidate? files 0).isSome with
      | true => exact .inl ⟨0, hk, hzero, hbelow⟩
      | false =>
        refine .inr fun n hn => ?_
        rcases Nat.eq_zero_or_pos n with rfl | hpos
        · exact Option.isNone_iff_eq_none.1 (by simpa using hzero)
        · exact hbelow n hpos hn
    | succ k ih =>
      cases hhere : (candidate? files (k + 1)).isSome with
      | true => exact .inl ⟨k + 1, hk, hhere, hbelow⟩
      | false =>
        apply ih (by omega)
        intro m hm hle
        rcases Nat.eq_or_lt_of_le hm with rfl | hlt
        · exact Option.isNone_iff_eq_none.1 (by simpa using hhere)
        · exact hbelow m hlt hle
  exact hsearch files.cwd.length (Nat.le_refl _) fun m hm hle => absurd hle (by omega)

theorem isPart_candidate (hnames : files.Named top) (n : Nat) :
    ∀ p ∈ files.cwd.take n ++ [fileName], IsPart p :=
  List.forall_mem_append.2
    ⟨fun p hp => hnames.cwd p (List.mem_of_mem_take hp), by simp [isPart_fileName]⟩

theorem at?_candidate (hnames : files.Named top) (n : Nat) :
    files.at? (spell ((top ++ files.cwd).take (top.length + n) ++ [fileName])) =
      candidate? files n := by
  rw [List.take_length_add_append, List.append_assoc]
  exact Files.at?_below hnames.base (isPart_candidate hnames n) (by simp)

theorem at?_above_candidate (hnames : files.Named top) {m : Nat} (hm : m < top.length) :
    files.at? (spell ((top ++ files.cwd).take m ++ [fileName])) = none := by
  rw [List.take_append_of_le_length (Nat.le_of_lt hm)]
  apply Files.at?_above hnames
  · exact List.forall_mem_append.2
      ⟨fun p hp => hnames.above p (List.mem_of_mem_take hp), by simp [isPart_fileName]⟩
  · rw [List.length_append, List.length_take, List.length_singleton]
    omega

/-- The nearest project file alone decides on the tab width. -/
theorem tabWidthWith_of_nearest (hnames : files.Named top) (h : Nearest files n) :
    tabWidthWith decode files =
      widthIn decode (files.absolute (files.cwd.take n ++ [fileName])) (candidate? files n) := by
  have hparts := List.forall_mem_append.2 ⟨hnames.above, hnames.cwd⟩
  have hname : files.absolute (files.cwd.take n ++ [fileName]) =
      spell ((top ++ files.cwd).take (top.length + n) ++ [fileName]) := by
    rw [Files.absolute_eq hnames.base (by simp), List.take_length_add_append, List.append_assoc]
  have hsearch : nearest? files files.workingName =
      some (files.absolute (files.cwd.take n ++ [fileName])) := by
    rw [Files.workingName_eq hnames, hname]
    apply nearest?_eq_some hparts
    · rw [List.length_append]
      exact Nat.add_le_add_left h.le _
    · rw [at?_candidate hnames]
      exact h.found
    · intro m hm hle
      obtain ⟨k, rfl⟩ := Nat.exists_eq_add_of_le (show top.length ≤ m by omega)
      rw [List.length_append] at hle
      rw [at?_candidate hnames]
      exact h.below k (by omega) (by omega)
  rw [tabWidthWith, hsearch, ← at?_candidate hnames, ← hname]

theorem tabWidthWith_of_none (hnames : files.Named top)
    (h : ∀ n ≤ files.cwd.length, candidate? files n = none) :
    tabWidthWith decode files = .ok none := by
  have hsearch : nearest? files files.workingName = none := by
    rw [Files.workingName_eq hnames]
    apply nearest?_eq_none (List.forall_mem_append.2 ⟨hnames.above, hnames.cwd⟩)
    intro m hle
    rcases Nat.lt_or_ge m top.length with hlt | hge
    · exact at?_above_candidate hnames hlt
    · obtain ⟨k, rfl⟩ := Nat.exists_eq_add_of_le hge
      rw [List.length_append] at hle
      rw [at?_candidate hnames]
      exact h k (by omega)
  rw [tabWidthWith, hsearch]

/-- What is above the nearest project file does not matter. -/
theorem tabWidthWith_congr (hnames : files.Named top) (h : Nearest files n)
    (hcwd : other.cwd = files.cwd) (hbase : other.base = files.base)
    (hsame : ∀ m, n ≤ m → m ≤ files.cwd.length → candidate? other m = candidate? files m) :
    tabWidthWith decode other = tabWidthWith decode files := by
  have hothers : other.Named top := ⟨hnames.above, by rw [hcwd]; exact hnames.cwd,
    by rw [hbase]; exact hnames.base⟩
  have hnearest : Nearest other n := by
    constructor
    · rw [hcwd]
      exact h.le
    · rw [hsame n (Nat.le_refl n) h.le]
      exact h.found
    · intro m hm hle
      rw [hcwd] at hle
      rw [hsame m (Nat.le_of_lt hm) hle]
      exact h.below m hm hle
  rw [tabWidthWith_of_nearest hothers hnearest, tabWidthWith_of_nearest hnames h,
    hsame n (Nat.le_refl n) h.le, Files.absolute, Files.absolute, hcwd, hbase]

end Width

/-- From every directory the search goes a bounded number of steps up, to a directory that holds
itself. It finds the first of the project files on its way. -/
theorem nearest?_along (dir : Bytes) : ∃ n ≤ height dir, parent^[n + 1] dir = parent^[n] dir ∧
    ∀ files, nearest? files dir = ((List.range (n + 1)).map fun k =>
      join (parent^[k] dir) fileName).find? fun name => (files.at? name).isSome := by
  induction hheight : height dir using Nat.strongRecOn generalizing dir with
  | _ bound ih =>
    by_cases hend : parent dir = dir
    · refine ⟨0, Nat.zero_le _, hend, fun files => ?_⟩
      rw [nearest?, if_pos hend]
      cases hfound : (files.at? (join dir fileName)).isSome with
      | true => simp [hfound]
      | false => simp [hfound]
    · have hlt := height_parent_lt hend
      obtain ⟨n, hn, hlast, hsearch⟩ := ih _ (hheight ▸ hlt) (parent dir) rfl
      refine ⟨n + 1, by omega, hlast, fun files => ?_⟩
      rw [nearest?, if_neg hend, List.range_succ_eq_map, List.map_cons, List.find?_cons,
        List.map_map]
      cases hfound : (files.at? (join dir fileName)).isSome with
      | true => simp [hfound]
      | false =>
        simp only [Function.iterate_zero, id_eq, hfound, Bool.false_eq_true, if_false]
        exact hsearch files

end Project
end Reindent
