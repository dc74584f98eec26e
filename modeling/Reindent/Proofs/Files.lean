import Mathlib.Data.List.Basic
import Reindent.Files

/-! Reading and writing files by name. -/
namespace Reindent

def Entry.perm? : Entry → Option Nat
  | .file f => some f.perm
  | .directory => none

namespace Files

theorem lookup_cons_eq (e : Path × Entry) (rest : List (Path × Entry)) (q : Path) :
    (e :: rest).lookup q = if q = e.1 then some e.2 else rest.lookup q := by
  rw [List.lookup_cons]
  by_cases hq : q = e.1
  · rw [if_pos hq, beq_iff_eq.2 hq]
  · rw [if_neg hq, beq_eq_false_iff_ne.2 hq]

theorem lookup_replace (path : Path) (entry : Entry) (entries : List (Path × Entry)) (q : Path) :
    (replace path entry entries).lookup q = if q = path then some entry else entries.lookup q := by
  induction entries with
  | nil => rw [replace, lookup_cons_eq]
  | cons e rest ih =>
    rw [replace]
    by_cases he : e.1 = path
    · rw [if_pos he, lookup_cons_eq, lookup_cons_eq, he]
      by_cases hq : q = path
      · rw [if_pos hq, if_pos hq]
      · rw [if_neg hq, if_neg hq, if_neg hq]
    · rw [if_neg he, lookup_cons_eq, lookup_cons_eq, ih]
      by_cases hq : q = path
      · have hne : q ≠ e.1 := fun h => he (h.symm.trans hq)
        rw [if_neg hne, if_pos hq, if_pos hq]
      · rw [if_neg hq, if_neg hq]

section Entries
variable {files : Files} {path : Path}

theorem get?_of_ne_nil (hpath : path ≠ []) : files.get? path = files.entries.lookup path := by
  rw [get?, if_neg (by simpa using hpath)]

theorem get?_set (hpath : path ≠ []) (entry : Entry) (q : Path) :
    (files.set path entry).get? q = if q = path then some entry else files.get? q := by
  by_cases hq : q = []
  · subst hq
    simp [get?, hpath.symm]
  · rw [get?_of_ne_nil hq, get?_of_ne_nil hq, set, lookup_replace]

end Entries

section Names
variable {files : Files} {name : Bytes}

theorem walk_append (place? : Option Place) (front back : List Bytes) :
    files.walk place? (front ++ back) =
      (files.walk place? front).bind fun place? => files.walk place? back := by
  induction front generalizing place? with
  | nil => cases place? <;> rfl
  | cons part front ih =>
    cases place? with
    | none => rfl
    | some place =>
      rw [List.cons_append, walk, walk]
      cases files.follow place part with
      | error fault => rfl
      | ok next? => exact ih next?

theorem directory_of_follow {place : Place} {part : Bytes} {next? : Option Place}
    (h : files.follow place part = .ok next?) : files.entryAt? place = some .directory := by
  unfold follow at h
  split at h
  · exact absurd h (by simp)
  · exact absurd h (by simp)
  · assumption

/-- A name that ends with a slash leads to a directory. -/
theorem directory_of_walk {place? : Option Place} {place : Place} {parts : List Bytes}
    (hlast : parts.getLast? = some []) (h : files.walk place? parts = .ok (some place)) :
    files.entryAt? place = some .directory := by
  obtain ⟨front, rfl⟩ := List.getLast?_eq_some_iff.1 hlast
  rw [walk_append] at h
  cases hfront : files.walk place? front with
  | error fault =>
    rw [hfront] at h
    exact absurd h (by simp [Except.bind])
  | ok between? =>
    rw [hfront] at h
    change files.walk between? [[]] = _ at h
    cases between? with
    | none => exact absurd h (by simp [walk])
    | some between =>
      rw [walk] at h
      cases hnext : files.follow between [] with
      | error fault =>
        rw [hnext] at h
        exact absurd h (by simp [bind, Except.bind])
      | ok next? =>
        have hdirectory := directory_of_follow hnext
        have hstays : files.follow between [] = .ok (some between) := by
          simp [follow, hdirectory]
        rw [hstays] at h
        obtain rfl : between = place := by simpa [bind, Except.bind, walk] using h
        exact hdirectory

theorem start_parts_ne_nil (files : Files) (name : Bytes) : (files.start name).2 ≠ [] := by
  unfold start
  split
  · exact Bytes.splitOn_ne_nil 47 _
  · exact Bytes.splitOn_ne_nil 47 _

theorem find_eq_ok_iff {place : Place} {entry : Entry} :
    files.find name = .ok (place, entry) ↔ checkName name = .ok () ∧
      files.walk (some (files.start name).1) (files.start name).2 = .ok (some place) ∧
      files.entryAt? place = some entry := by
  unfold find
  cases checkName name with
  | error fault => simp [bind, Except.bind]
  | ok u =>
    cases hwalk : files.walk (some (files.start name).1) (files.start name).2 with
    | error fault => simp [bind, Except.bind, hwalk]
    | ok place? =>
      cases place? with
      | none => simp [bind, Except.bind, hwalk]
      | some reached =>
        simp only [bind, Except.bind, hwalk, Except.ok.injEq, Option.some.injEq, true_and]
        split
        · next hnone =>
          simp only [reduceCtorEq, false_iff, not_and]
          rintro rfl
          simp [hnone]
        · next found hfound =>
          simp only [Except.ok.injEq, Prod.mk.injEq, and_congr_right_iff]
          rintro rfl
          simp [hfound]

theorem target_eq_ok_iff {path : Path} :
    files.target name = .ok path ↔ checkName name = .ok () ∧
      (files.start name).2.getLast?.getD [] ≠ [] ∧
      files.walk (some (files.start name).1) (files.start name).2 = .ok (some (.inside path)) ∧
      files.get? path ≠ some .directory := by
  unfold target
  cases checkName name with
  | error fault => simp [bind, Except.bind]
  | ok u =>
    by_cases hlast : (files.start name).2.getLast?.getD [] = []
    · simp only [bind, Except.bind, hlast, List.isEmpty_nil, if_true]
      split <;> simp
    · cases hwalk : files.walk (some (files.start name).1) (files.start name).2 with
      | error fault => simp [bind, Except.bind, hwalk, hlast]
      | ok place? =>
        match place? with
        | none => simp [bind, Except.bind, hwalk, hlast]
        | some .above => simp [bind, Except.bind, hwalk, hlast]
        | some (.inside reached) =>
          simp only [bind, Except.bind, hwalk, hlast, List.isEmpty_iff, if_false, Except.ok.injEq,
            Option.some.injEq, Place.inside.injEq, ne_eq, not_false_eq_true, true_and]
          split
          · next hdirectory =>
            simp only [reduceCtorEq, false_iff, not_and, not_not]
            rintro rfl
            exact hdirectory
          · next hfile =>
            simp only [Except.ok.injEq, iff_self_and]
            rintro rfl
            exact hfile

theorem read_eq_ok_iff {f : File} :
    files.read name = .ok f ↔ ∃ place, files.find name = .ok (place, .file f) := by
  unfold read
  split
  · next hfind => simp [hfind]
  · next hfind => simp [hfind]
  · next place g hfind => simp [hfind]

/-- A file that can be read can be written, at the place where it was found. -/
theorem target_of_find {place : Place} {f : File} (h : files.find name = .ok (place, .file f)) :
    ∃ path, place = .inside path ∧ files.get? path = some (.file f) ∧
      files.target name = .ok path := by
  obtain ⟨hname, hwalk, hentry⟩ := find_eq_ok_iff.1 h
  have hlast : (files.start name).2.getLast?.getD [] ≠ [] := by
    intro hempty
    cases hparts : (files.start name).2.getLast? with
    | none => exact files.start_parts_ne_nil name (List.getLast?_eq_none_iff.1 hparts)
    | some last =>
      rw [hparts] at hempty
      obtain rfl : last = [] := hempty
      have hdirectory := directory_of_walk hparts hwalk
      rw [hentry] at hdirectory
      exact absurd hdirectory (by simp)
  cases place with
  | above => exact absurd hentry (by simp [entryAt?])
  | inside path =>
    have hfile : files.get? path = some (.file f) := hentry
    exact ⟨path, rfl, hfile, target_eq_ok_iff.2 ⟨hname, hlast, hwalk, by simp [hfile]⟩⟩

end Names

section Writing
variable {files after : Files} {name content : Bytes} {perm : Nat} {path : Path}

/-- Writing changes one entry, which is no directory. -/
theorem write_eq_ok_iff :
    files.write name content perm = .ok after ↔ ∃ path, files.target name = .ok path ∧
      after = files.set path (.file
        { content, perm := ((files.get? path).bind Entry.perm?).getD (mask perm) }) := by
  unfold write
  split
  · next hfault => simp [hfault]
  · next path hpath =>
    simp only [hpath, Except.ok.injEq, exists_eq_left']
    split
    · next f hfile => simp [hfile, Entry.perm?, eq_comm]
    · next hother =>
      have hperm : (files.get? path).bind Entry.perm? = none := by
        cases hentry : files.get? path with
        | none => rfl
        | some entry =>
          cases entry with
          | file f => exact absurd hentry (hother f)
          | directory => rfl
      simp [hperm, eq_comm]

theorem ne_nil_of_target (h : files.target name = .ok path) : path ≠ [] := by
  rintro rfl
  exact (target_eq_ok_iff.1 h).2.2.2 rfl

/-- A name leads to the same place after a file is put where no directory was. -/
theorem walk_set {f : File} (hpath : path ≠ []) (hfile : files.get? path ≠ some .directory)
    {place? reached? : Option Place} {parts : List Bytes}
    (h : files.walk place? parts = .ok reached?) :
    (files.set path (.file f)).walk place? parts = .ok reached? := by
  induction parts generalizing place? with
  | nil => exact h
  | cons part parts ih =>
    cases place? with
    | none => exact absurd h (by simp [walk])
    | some place =>
      rw [walk] at h ⊢
      cases hnext : files.follow place part with
      | error fault =>
        rw [hnext] at h
        exact absurd h (by simp [bind, Except.bind])
      | ok next? =>
        have hdirectory := directory_of_follow hnext
        have hentry : (files.set path (.file f)).entryAt? place = files.entryAt? place := by
          cases place with
          | above => rfl
          | inside q =>
            have hne : q ≠ path := by
              rintro rfl
              exact hfile hdirectory
            exact (get?_set hpath _ q).trans (if_neg hne)
        have hsame : (files.set path (.file f)).follow place part = files.follow place part := by
          unfold follow
          rw [hentry]
          rfl
        rw [hnext] at h
        rw [hsame, hnext]
        exact ih h

theorem read_set {f : File} (h : files.target name = .ok path) :
    (files.set path (.file f)).read name = .ok f := by
  have hpath := ne_nil_of_target h
  obtain ⟨hname, -, hwalk, hfile⟩ := target_eq_ok_iff.1 h
  have hentry : (files.set path (.file f)).entryAt? (.inside path) = some (.file f) :=
    (get?_set hpath _ path).trans (if_pos rfl)
  exact read_eq_ok_iff.2
    ⟨.inside path, find_eq_ok_iff.2 ⟨hname, walk_set hpath hfile hwalk, hentry⟩⟩

end Writing

/-- The same entries with the same permissions; only the contents of files may differ. -/
structure Alike (before after : Files) : Prop where
  cwd : after.cwd = before.cwd
  base : after.base = before.base
  perm : ∀ path, (after.get? path).map Entry.perm? = (before.get? path).map Entry.perm?

namespace Alike
variable {before after : Files} {name : Bytes}

theorem entryAt? (h : Alike before after) (place : Place) :
    (after.entryAt? place).map Entry.perm? = (before.entryAt? place).map Entry.perm? := by
  cases place with
  | above => rfl
  | inside path => exact h.perm path

theorem follow (h : Alike before after) (place : Place) (part : Bytes) :
    after.follow place part = before.follow place part := by
  have hentry := h.entryAt? place
  have hparent : after.parent place = before.parent place := by
    unfold parent
    rw [h.base]
  unfold Files.follow
  cases hb : before.entryAt? place with
  | none =>
    rw [hb] at hentry
    rw [Option.map_eq_none_iff.1 hentry]
  | some entry =>
    rw [hb] at hentry
    obtain ⟨entry', ha, hperm⟩ := Option.map_eq_some_iff.1 hentry
    rw [ha]
    cases entry <;> cases entry' <;> simp_all [Entry.perm?]

theorem walk (h : Alike before after) (place? : Option Place) (parts : List Bytes) :
    after.walk place? parts = before.walk place? parts := by
  induction parts generalizing place? with
  | nil => rfl
  | cons part parts ih =>
    cases place? with
    | none => rfl
    | some place =>
      rw [Files.walk, Files.walk, h.follow place part]
      cases before.follow place part with
      | error fault => rfl
      | ok next? => exact ih next?

theorem start (h : Alike before after) (name : Bytes) : after.start name = before.start name := by
  unfold Files.start
  rw [h.cwd, h.base]

theorem find (h : Alike before after) (name : Bytes) :
    (after.find name).map (fun found => (found.1, found.2.perm?)) =
      (before.find name).map (fun found => (found.1, found.2.perm?)) := by
  unfold Files.find
  rw [h.start]
  cases checkName name with
  | error fault => rfl
  | ok u =>
    simp only [bind, Except.bind, h.walk]
    cases before.walk (some (before.start name).1) (before.start name).2 with
    | error fault => rfl
    | ok place? =>
      cases place? with
      | none => rfl
      | some place =>
        have hentry := h.entryAt? place
        dsimp only
        cases hb : before.entryAt? place with
        | none =>
          rw [hb] at hentry
          rw [Option.map_eq_none_iff.1 hentry]
        | some entry =>
          rw [hb] at hentry
          obtain ⟨entry', ha, hperm⟩ := Option.map_eq_some_iff.1 hentry
          rw [ha]
          simp [Except.map, hperm]

theorem find_file (h : Alike before after) {place : Place} {f : File}
    (hfind : before.find name = .ok (place, .file f)) :
    ∃ g, after.find name = .ok (place, .file g) ∧ g.perm = f.perm := by
  have hsame := h.find name
  rw [hfind] at hsame
  cases ha : after.find name with
  | error fault =>
    rw [ha] at hsame
    exact absurd hsame (by simp [Except.map])
  | ok found =>
    rw [ha] at hsame
    obtain ⟨place', entry⟩ := found
    cases entry with
    | directory => exact absurd hsame (by simp [Except.map, Entry.perm?])
    | file g =>
      simp only [Except.map, Entry.perm?, Except.ok.injEq, Prod.mk.injEq,
        Option.some.injEq] at hsame
      exact ⟨g, by rw [hsame.1], hsame.2⟩

theorem read (h : Alike before after) (name : Bytes) :
    (after.read name).map File.perm = (before.read name).map File.perm := by
  have hsame := h.find name
  unfold Files.read
  cases hb : before.find name with
  | error fault =>
    rw [hb] at hsame
    cases ha : after.find name with
    | error fault' =>
      rw [ha] at hsame
      obtain rfl : fault' = fault := by simpa [Except.map] using hsame
      rfl
    | ok found =>
      rw [ha] at hsame
      exact absurd hsame (by simp [Except.map])
  | ok found =>
    obtain ⟨place, entry⟩ := found
    cases entry with
    | file f =>
      obtain ⟨g, hg, hperm⟩ := h.find_file hb
      rw [hg]
      simp [Except.map, hperm]
    | directory =>
      rw [hb] at hsame
      cases ha : after.find name with
      | error fault =>
        rw [ha] at hsame
        exact absurd hsame (by simp [Except.map])
      | ok found =>
        rw [ha] at hsame
        obtain ⟨place', entry⟩ := found
        cases entry with
        | directory => rfl
        | file g => exact absurd hsame (by simp [Except.map, Entry.perm?])

end Alike
end Files
end Reindent
