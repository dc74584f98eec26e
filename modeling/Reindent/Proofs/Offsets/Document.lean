import Reindent.Proofs.Matching.Levels
import Reindent.Proofs.Offsets.Exactness
import Reindent.Proofs.Safety

/-! The indentation of documents is exact: levels stay below the numbers of their lines, offsets
stay between a tab to the left and a tab for every line to the right, and their sums do not
overflow. -/
namespace Reindent

namespace Scope

/-- Open scopes with levels below a bound. -/
def Shallow (bound : Nat) (stack : Stack) : Prop :=
  ∀ t ∈ stack, 0 ≤ t.level.toInt ∧ t.level.toInt < bound

theorem Shallow.mono {bound bound' : Nat} {stack stack' : Stack} (h : Shallow bound stack)
    (hsub : stack' ⊆ stack) (hle : bound ≤ bound') : Shallow bound' stack' := by
  intro t ht
  have hlevel := h t (hsub ht)
  omega

theorem Shallow.nextLevel {i : Nat} {stack : Stack} (h : Shallow i stack) (hi : i < 2 ^ 63) :
    0 ≤ (nextLevel stack).toInt ∧ (nextLevel stack).toInt ≤ i := by
  cases stack with
  | nil => exact ⟨Int.le_refl 0, Int.natCast_nonneg i⟩
  | cons t rest =>
    have hlevel := h t List.mem_cons_self
    have hnext : (t.level + 1).toInt = t.level.toInt + 1 := by
      have hone : Int64.toInt 1 = 1 := rfl
      rw [Int64.toInt_add, hone, bmod_of_range (by omega) (by omega)]
    unfold Scope.nextLevel
    dsimp only
    omega

namespace Progress
variable {i : Nat} {tokens : List Token} {p p' : Progress} {t t' : Token}

/-- On the line with index `i`, scopes of the lines above have levels below `i`; those of the line
itself may have the level `i`. The offset of the line is that of one of its tokens. -/
structure Low (i : Nat) (tokens : List Token) (p : Progress) : Prop where
  stack : Shallow (if p.started then i + 1 else i) p.stack
  level : 0 ≤ p.level.toInt ∧ p.level.toInt ≤ i
  offset : p.offset = 0 ∨ ∃ t ∈ tokens, p.offset = t.offset

/-- The first token of a line that counts decides about the level of the line. -/
theorem Low.level_start (h : Low i tokens p) (t : Token) {level : Int64}
    (hlevel : p.started = false → 0 ≤ level.toInt ∧ level.toInt ≤ i) :
    0 ≤ (p.start t level).level.toInt ∧ (p.start t level).level.toInt ≤ i := by
  rw [Progress.level_start]
  split_ifs with hstarted
  · exact h.level
  · exact hlevel (by simpa using hstarted)

theorem Low.start_push (h : Low i tokens p) (ht : t ∈ tokens) {rest : Stack}
    (hrest : rest ⊆ p.stack) {level level' : Int64}
    (hlevel : p.started = false → 0 ≤ level.toInt ∧ level.toInt ≤ i)
    (hlevel' : 0 ≤ level'.toInt ∧ level'.toInt ≤ i) :
    Low i tokens (({ p with stack := rest }.start t level).push t level').1 := by
  have hle : (if p.started then i + 1 else i) ≤ i + 1 := by
    split_ifs
    · omega
    · omega
  have hkept : Shallow (i + 1) rest := h.stack.mono hrest hle
  refine ⟨?_, ?_, ?_⟩
  · rw [started_push, started_start, if_pos rfl, stack_push, stack_start]
    split_ifs
    · intro x hx
      rcases List.mem_cons.1 hx with heq | hx
      · rw [heq]
        constructor
        · exact hlevel'.1
        · dsimp only
          omega
      · exact hkept x hx
    · exact hkept
  · have hline := h.level_start t hlevel
    rw [Progress.level_start] at hline
    rw [level_push, Progress.level_start]
    exact hline
  · rw [offset_push, offset_start]
    split_ifs
    · exact h.offset
    · exact Or.inr ⟨t, ht, rfl⟩

theorem Low.step (h : Low i tokens p) (hi : i < 2 ^ 63) (ht : t ∈ tokens)
    (hs : p.step t = .ok (p', t')) : Low i tokens p' := by
  by_cases hskip : p.started = false ∧ t.isBlank = true
  · rw [step_of_blank hskip.1 hskip.2] at hs
    have hp : p = p' := congrArg Prod.fst (Except.ok.inj hs)
    rw [← hp]
    exact h
  · have hv : p.started = true ∨ t.isBlank = false := by
      rwa [not_and_or, Bool.not_eq_false, Bool.not_eq_true] at hskip
    rcases step_cases hv hs with ⟨-, hp'⟩ | ⟨-, opener, rest, htakes, hp'⟩
    · have hnext : p.started = false →
          0 ≤ (nextLevel p.stack).toInt ∧ (nextLevel p.stack).toInt ≤ i := by
        intro hstarted
        have hstack := h.stack
        rw [hstarted, if_neg Bool.false_ne_true] at hstack
        exact hstack.nextLevel hi
      rw [hp']
      exact h.start_push ht (fun _ => id) hnext (h.level_start t hnext)
    · have hopener : opener ∈ p.stack := by
        obtain ⟨above, below, hstack, -⟩ := htakes
        rw [hstack]
        simp
      have hlevel := h.stack opener hopener
      have hbounds : 0 ≤ opener.level.toInt ∧ opener.level.toInt ≤ i := by
        split_ifs at hlevel
        · omega
        · omega
      rw [hp']
      exact h.start_push ht htakes.sublist.subset (fun _ => hbounds) hbounds

theorem Low.walk {rest : List Token} (h : Low i tokens p) (hi : i < 2 ^ 63)
    (hrest : ∀ t ∈ rest, t ∈ tokens) : Low i tokens (p.walk rest).1 := by
  induction rest generalizing p with
  | nil => exact h
  | cons t rest ih =>
    cases hs : p.step t with
    | error e =>
      rw [walk_of_error hs]
      exact h
    | ok r =>
      rw [walk_of_ok hs]
      exact ih (h.step hi (hrest t List.mem_cons_self) hs) fun x hx =>
        hrest x (List.mem_cons_of_mem t hx)

end Progress

/-- The level of a line by its index, and where its offset comes from. -/
structure Low (i : Nat) (line line' : Line) : Prop where
  level : 0 ≤ line'.level.toInt ∧ line'.level.toInt ≤ i
  offset : line'.offset = 0 ∨ ∃ t ∈ line.tokens, line'.offset = t.offset

theorem low_passLine {i : Nat} {stack : Stack} (line : Line) (h : Shallow i stack)
    (hi : i < 2 ^ 63) :
    Shallow (i + 1) (passLine stack line).1 ∧ Low i line (passLine stack line).2.1 := by
  have hstart : Progress.Low i line.tokens { stack } :=
    ⟨h, ⟨Int.le_refl 0, Int.natCast_nonneg i⟩, Or.inl rfl⟩
  have hend := hstart.walk hi fun _ => id
  refine ⟨hend.stack.mono (fun _ => id) ?_, hend.level, hend.offset⟩
  split_ifs
  · omega
  · omega

theorem low_passLines {i : Nat} {stack : Stack} {lines : List Line} (h : Shallow i stack)
    (hi : i + lines.length ≤ 2 ^ 63) (herror : (passLines stack lines).error? = none) {j : Nat}
    {line' : Line} (hline' : (passLines stack lines).lines[j]? = some line') :
    ∃ line, lines[j]? = some line ∧ Low (i + j) line line' := by
  induction lines generalizing i j stack with
  | nil => exact absurd hline' (by simp [passLines])
  | cons line rest ih =>
    rw [List.length_cons] at hi
    obtain ⟨hstack, hlow⟩ := low_passLine line h (by omega)
    cases hline : (passLine stack line).2.2 with
    | some e =>
      rw [passLines_of_error hline] at herror
      exact absurd herror (by simp)
    | none =>
      rw [passLines_of_ok hline] at herror hline'
      cases j with
      | zero =>
        rw [← Option.some.inj hline']
        exact ⟨line, rfl, hlow⟩
      | succ j =>
        obtain ⟨line₀, hat, hrest⟩ := ih hstack (by omega) herror hline'
        have hindex : i + 1 + j = i + (j + 1) := by omega
        rw [hindex] at hrest
        exact ⟨line₀, hat, hrest⟩

/-- A line has at most as many levels as there are lines above it. -/
theorem low_of_assign {lines placed : List Line} (h : assign lines = .ok placed)
    (hsize : lines.length ≤ 2 ^ 63) {i : Nat} {line' : Line} (hline' : placed[i]? = some line') :
    ∃ line, lines[i]? = some line ∧ Low i line line' := by
  rw [assign_eq] at h
  split at h
  · exact absurd h (by simp)
  · exact absurd h (by simp)
  · next herror _ =>
    rw [← Except.ok.inj h] at hline'
    have hnone : Shallow 0 [] := fun t ht => absurd ht (by simp)
    have hlow := low_passLines hnone (by omega) herror hline'
    rwa [Nat.zero_add] at hlow

end Scope

namespace Fits
variable {width : Int64} {size i : Nat}

theorem toInt_margin (h : Fits width size) (hi : i ≤ size) {level offset : Int64}
    (hlevel : 0 ≤ level.toInt ∧ level.toInt ≤ i) (hlow : -width.toInt ≤ offset.toInt)
    (hhigh : offset.toInt ≤ max ((i + 1 : Nat) * width.toInt) size) :
    (width * level + offset).toInt = width.toInt * level.toInt + offset.toInt := by
  have hnonneg := h.nonneg
  have hwidth := width.toInt_lt
  have hproduct : 0 ≤ width.toInt * level.toInt ∧ width.toInt * level.toInt ≤ i * width.toInt := by
    constructor
    · exact Int.mul_nonneg hnonneg hlevel.1
    · rw [Int.mul_comm]
      exact Int.mul_le_mul_of_nonneg_right hlevel.2 hnonneg
  have htwice : (i + (i + 1) : Nat) * width.toInt =
      i * width.toInt + (i + 1 : Nat) * width.toInt := by
    rw [Nat.cast_add, Int.add_mul]
  have hone := h.tabs_lt (k := i) (by omega)
  have hboth := h.tabs_lt (k := i + (i + 1)) (by omega)
  have hmul : (width * level).toInt = width.toInt * level.toInt := by
    rw [Int64.toInt_mul, bmod_of_range (by omega) (by omega)]
  rw [Int64.toInt_add, hmul, bmod_of_range (by omega) (by omega)]

end Fits

namespace Formatter
open Scan

/-- Indentation does not overflow. If the tab width is such that the sum below is in range, every
line has at most as many levels as there are lines above it, and an offset between a tab to the
left and, to the right, a tab for every line up to it or the size of the document. So its margin is
that of the integers, and so are the offsets of tags and scripts that are computed on the way. -/
theorem lines_exact (f : Formatter) {source : Bytes} {placed : List Line} (hwidth : 0 ≤ f.tabWidth)
    (hfits : (2 * source.length + 1) * (f.tabWidth.toInt + 1) < 2 ^ 63)
    (h : f.lines source = .ok placed) :
    (∀ (i : Nat) (line : Line), placed[i]? = some line →
      0 ≤ line.level.toInt ∧ line.level.toInt ≤ i ∧ -f.tabWidth.toInt ≤ line.offset.toInt ∧
      line.offset.toInt ≤ max ((i + 1 : Nat) * f.tabWidth.toInt) source.length ∧
      (f.tabWidth * line.level + line.offset).toInt =
        f.tabWidth.toInt * line.level.toInt + line.offset.toInt) ∧
    Whole.Along (Reading.Exact f.tabWidth source.length) 0 { number := 1 } source
      (Whole.events { tabWidth := f.tabWidth, blocks := f.blocks } { modes := f.language.start }
        { number := 1 } source) := by
  have hfit : Fits f.tabWidth source.length := ⟨Int64.le_iff_toInt_le.1 hwidth, hfits⟩
  have hkeeps := @keeps_bounded _ { tabWidth := f.tabWidth, blocks := f.blocks } hfit
  have hstart := bounded_start hfit f.language
  refine ⟨fun i line hline => ?_, hkeeps.events hstart⟩
  unfold Formatter.lines at h
  rw [if_neg (Int64.not_lt.2 hwidth)] at h
  obtain ⟨read, hread, hassign⟩ := parse_eq_ok_iff.1 h
  have hcount : read.length ≤ source.length + 1 := by
    have hraw := congrArg List.length (tokenize_covers hread).raw
    rw [List.length_map, Bytes.length_lines] at hraw
    rw [hraw]
    exact Nat.succ_le_succ List.count_le_length
  have hsize := hfit.tabs_lt (k := 0) (by omega)
  obtain ⟨line₀, hat, hlow⟩ := Scope.low_of_assign hassign (by omega) hline
  have hi : i ≤ source.length := by
    have hlt := (List.getElem?_eq_some_iff.1 hat).1
    omega
  have hoffset : -f.tabWidth.toInt ≤ line.offset.toInt ∧
      line.offset.toInt ≤ max ((i + 1 : Nat) * f.tabWidth.toInt) source.length := by
    rcases hlow.offset with hzero | ⟨t, ht, heq⟩
    · have hnone : line.offset.toInt = 0 := by
        rw [hzero]
        rfl
      have hnonneg := hfit.nonneg
      constructor
      · omega
      · omega
    · obtain ⟨r, before, more, htoken, hexact⟩ := hkeeps.tokens hstart hread hat ht
      rw [heq, ← htoken]
      exact ⟨hexact.low, hexact.high⟩
  exact ⟨hlow.level.1, hlow.level.2, hoffset.1, hoffset.2,
    hfit.toInt_margin hi hlow.level hoffset.1 hoffset.2⟩

/-- A tag over two lines, and a script with a chain of calls inside. -/
def chainedPage : Bytes :=
  Bytes.ascii "<p id=a\nclass=b>\n<script>\nf\n.g(\n)\n</script>\n</p>"

theorem lines_exact_chainedPage :
    ∃ placed, ({} : Formatter).lines chainedPage = .ok placed ∧
      (∀ (i : Nat) (line : Line), placed[i]? = some line →
        ((4 : Int64) * line.level + line.offset).toInt = 4 * line.level.toInt + line.offset.toInt) ∧
      Whole.Along (Reading.Exact 4 chainedPage.length) 0 { number := 1 } chainedPage
        (Whole.events {} { modes := Language.html.start } { number := 1 } chainedPage) := by
  have hok : (({} : Formatter).lines chainedPage).isOk = true := by decide +kernel
  cases hlines : ({} : Formatter).lines chainedPage with
  | error e =>
    rw [hlines] at hok
    exact absurd hok (by simp [Except.isOk, Except.toBool])
  | ok placed =>
    obtain ⟨hplaced, hexact⟩ := lines_exact {} (by decide) (by decide) hlines
    exact ⟨placed, rfl, fun i line hline => (hplaced i line hline).2.2.2.2, hexact⟩

end Formatter
end Reindent
