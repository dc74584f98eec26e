import Reindent.Text.Bytes

/-! Names of directories. They are shortened and put together without a look at any files. -/
namespace Reindent.Directory

/-- The parts of a name, each behind a slash. -/
def spell (parts : List Bytes) : Bytes := parts.flatMap (47 :: ·)

/-- The full name of the place that the parts lead to from the top. -/
def rooted (parts : List Bytes) : Bytes := if parts.isEmpty then [47] else spell parts

/-- A part of a name behind others: two dots undo the part before them. Above the top there is
nothing; a name that does not start at the top may lead out of the place where it starts. -/
def follow (fromTop : Bool) (parts : List Bytes) (part : Bytes) : List Bytes :=
  if part.isEmpty || part == Bytes.ascii "." then parts
  else if part == Bytes.ascii ".." then
    match parts.getLast? with
    | none => if fromTop then [] else [part]
    | some last => if last == Bytes.ascii ".." then parts ++ [part] else parts.dropLast
  else parts ++ [part]

/-- The shortest name for the place of a name. -/
def clean (name : Bytes) : Bytes :=
  let fromTop := name.head? == some 47
  let parts := (Bytes.splitOn 47 name).foldl (follow fromTop) []
  if fromTop then rooted parts
  else if parts.isEmpty then Bytes.ascii "."
  else (spell parts).drop 1

/-- The name up to its last slash. -/
def front (name : Bytes) : Bytes := (name.reverse.dropWhile (· != 47)).reverse

/-- The directory that holds a place. The top holds itself, and so does a place without a name. -/
def parent (name : Bytes) : Bytes := clean (front name)

def join (dir file : Bytes) : Bytes :=
  clean (if dir.isEmpty then file else dir ++ 47 :: file)

/-- How far up a name can lead at most. -/
def height (name : Bytes) : Nat := if name = Bytes.ascii "." then 0 else name.length + 1

theorem length_spell_append (a b : List Bytes) :
    (spell (a ++ b)).length = (spell a).length + (spell b).length := by
  rw [spell, List.flatMap_append, List.length_append]
  rfl

theorem length_spell_singleton (part : Bytes) : (spell [part]).length = part.length + 1 := by
  rw [spell, List.flatMap_singleton, List.length_cons]

theorem length_follow (fromTop : Bool) (parts : List Bytes) (part : Bytes) :
    (spell (follow fromTop parts part)).length ≤ (spell parts).length + (spell [part]).length := by
  have hone : (spell (parts ++ [part])).length = (spell parts).length + (spell [part]).length :=
    length_spell_append parts [part]
  have hlast : (spell parts.dropLast).length ≤ (spell parts).length := by
    cases hp : parts.getLast? with
    | none =>
      rw [List.getLast?_eq_none_iff.1 hp]
      exact Nat.le_refl _
    | some last =>
      obtain ⟨init, rfl⟩ := List.getLast?_eq_some_iff.1 hp
      rw [List.dropLast_concat, length_spell_append]
      exact Nat.le_add_right _ _
  unfold follow
  split
  · omega
  · split
    · split
      · next hnone =>
        rw [List.getLast?_eq_none_iff.1 hnone] at hone ⊢
        split
        · exact Nat.zero_le _
        · exact Nat.le_of_eq hone
      · split
        · omega
        · omega
    · omega

theorem length_foldl_follow (fromTop : Bool) (parts more : List Bytes) :
    (spell (more.foldl (follow fromTop) parts)).length ≤
      (spell parts).length + (spell more).length := by
  induction more generalizing parts with
  | nil => exact Nat.le_refl _
  | cons part more ih =>
    have hstep := length_follow fromTop parts part
    have hrest := ih (follow fromTop parts part)
    have hcons : (spell (part :: more)).length = (spell [part]).length + (spell more).length :=
      length_spell_append [part] more
    rw [List.foldl_cons]
    omega

theorem length_spell_splitOn (s : Bytes) : (spell (Bytes.splitOn 47 s)).length = s.length + 1 := by
  induction s with
  | nil => rfl
  | cons b rest ih =>
    rw [Bytes.splitOn]
    split
    · rw [← List.singleton_append, length_spell_append, ih]
      exact Nat.add_comm _ _
    · cases hs : Bytes.splitOn 47 rest with
      | nil => exact absurd hs (Bytes.splitOn_ne_nil 47 rest)
      | cons p ps =>
        rw [hs, ← List.singleton_append, length_spell_append, length_spell_singleton] at ih
        dsimp only
        rw [← List.singleton_append, length_spell_append, length_spell_singleton,
          List.length_cons, List.length_cons]
        omega

theorem front_cases (name : Bytes) :
    front name = [] ∨ ∃ init last, front name = init ++ [47] ∧ name = init ++ 47 :: last := by
  have hsplit := List.takeWhile_append_dropWhile (p := (· != 47)) (l := name.reverse)
  unfold front
  cases h : name.reverse.dropWhile (· != 47) with
  | nil => exact .inl rfl
  | cons b rest =>
    have hstop := List.head?_dropWhile_not (· != 47) name.reverse
    rw [h, List.head?_cons] at hstop
    obtain rfl : b = 47 := by simpa using hstop
    refine .inr ⟨rest.reverse, (name.reverse.takeWhile (· != 47)).reverse, List.reverse_cons, ?_⟩
    have hname := congrArg List.reverse hsplit
    rw [h, List.reverse_append, List.reverse_cons, List.reverse_reverse, List.append_assoc] at hname
    exact hname.symm

theorem clean_front (init : Bytes) :
    (clean (init ++ [47])) = [47] ∨ clean (init ++ [47]) = Bytes.ascii "." ∨
      (clean (init ++ [47])).length ≤ init.length := by
  have hfold (fromTop : Bool) (s : Bytes) : (Bytes.splitOn 47 (s ++ [47])).foldl (follow fromTop) []
      = (Bytes.splitOn 47 s).foldl (follow fromTop) [] := by
    rw [Bytes.splitOn_append, List.foldl_append]
    rfl
  have hbound (fromTop : Bool) (s : Bytes) :
      (spell ((Bytes.splitOn 47 s).foldl (follow fromTop) [])).length ≤ s.length + 1 := by
    have h := length_foldl_follow fromTop [] (Bytes.splitOn 47 s)
    rw [length_spell_splitOn] at h
    exact Nat.le_trans h (Nat.le_of_eq (Nat.zero_add _))
  cases init with
  | nil => exact .inl (by decide)
  | cons b init =>
    by_cases htop : b = 47
    · subst htop
      have hshift := hbound true init
      have hhead : Bytes.splitOn 47 (47 :: init) = [] :: Bytes.splitOn 47 init := by
        rw [Bytes.splitOn, if_pos rfl]
      have hclean : clean (47 :: init ++ [47]) =
          rooted ((Bytes.splitOn 47 init).foldl (follow true) []) := by
        change rooted ((Bytes.splitOn 47 (47 :: init ++ [47])).foldl (follow true) []) = _
        rw [hfold, hhead]
        rfl
      rw [hclean, rooted]
      split
      · exact .inl rfl
      · exact .inr (.inr hshift)
    · have hfalse : ((b :: init ++ [47]).head? == some 47) = false := by simpa using htop
      have hshift := hbound false (b :: init)
      rw [clean, hfalse, hfold, if_neg (by decide)]
      split
      · exact .inr (.inl rfl)
      · right
        right
        rw [List.length_drop]
        omega

/-- A directory has a shorter name than what it holds, but for the ends of the way up. -/
theorem length_parent (name : Bytes) : parent name = Bytes.ascii "." ∨ parent name = name ∨
    (parent name).length < name.length := by
  rcases front_cases name with hnone | ⟨init, last, hfront, hname⟩
  · left
    rw [parent, hnone]
    decide
  · have hlength : init.length + last.length + 1 = name.length := by
      rw [hname, List.length_append, List.length_cons]
      omega
    rw [parent, hfront]
    rcases clean_front init with htop | hdot | hshort
    · right
      cases hrest : init ++ last with
      | nil =>
        left
        rw [List.append_eq_nil_iff] at hrest
        rw [htop, hname, hrest.1, hrest.2]
        rfl
      | cons b rest =>
        right
        have hpos := congrArg List.length hrest
        rw [List.length_append, List.length_cons] at hpos
        rw [htop, List.length_singleton]
        omega
    · exact .inl hdot
    · right
      right
      omega

theorem height_le (name : Bytes) : height name ≤ name.length + 1 := by
  unfold height
  split
  · exact Nat.zero_le _
  · exact Nat.le_refl _

/-- The way up is finite: it ends where a directory holds itself. -/
theorem height_parent_lt {name : Bytes} (h : parent name ≠ name) :
    height (parent name) < height name := by
  have hdot : parent (Bytes.ascii ".") = Bytes.ascii "." := by decide
  have hname : name ≠ Bytes.ascii "." := by
    rintro rfl
    exact h hdot
  have hheight : height name = name.length + 1 := if_neg hname
  rcases length_parent name with hparent | hparent | hlt
  · rw [hparent, hheight]
    exact Nat.succ_pos _
  · exact absurd hparent h
  · have hle := height_le (parent name)
    omega

end Reindent.Directory
