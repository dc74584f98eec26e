import Mathlib.Algebra.Order.Ring.Int
import Mathlib.Tactic.Ring
import Reindent.Proofs.Offsets.Steps
import Reindent.Proofs.Respacing.Questions
import Reindent.Proofs.Scan.Along

/-! Offsets are exact: as long as twice the size of a document, times its tab width, is a number, no
sum of offsets that is computed on the way overflows. -/
namespace Reindent
open Bytes Text

/-- Numbers in the range of 64 bits are not wrapped around. -/
theorem bmod_of_range {x : Int} (hlow : -2 ^ 63 ≤ x) (hhigh : x < 2 ^ 63) :
    x.bmod (2 ^ 64) = x := by
  apply Int.bmod_eq_of_le
  · omega
  · omega

/-- A tab width with which a document of some size can be indented without overflow. -/
structure Fits (width : Int64) (size : Nat) : Prop where
  nonneg : 0 ≤ width.toInt
  bound : (2 * size + 1) * (width.toInt + 1) < 2 ^ 63

namespace Fits
variable {width : Int64} {size k : Nat}

theorem tabs_lt (h : Fits width size) (hk : k ≤ 2 * size + 1) :
    k * width.toInt + size < 2 ^ 63 := by
  have hbound := h.bound
  have hnonneg := h.nonneg
  have hmul : k * width.toInt ≤ (2 * size + 1) * width.toInt :=
    Int.mul_le_mul_of_nonneg_right (by omega) hnonneg
  have hsum : (2 * size + 1) * (width.toInt + 1) =
      (2 * size + 1) * width.toInt + (2 * size + 1) := by
    ring
  omega

theorem mul_nonneg (h : Fits width size) (k : Nat) : 0 ≤ k * width.toInt :=
  Int.mul_nonneg (by omega) h.nonneg

theorem mul_le (h : Fits width size) {j : Nat} (hjk : j ≤ k) : j * width.toInt ≤ k * width.toInt :=
  Int.mul_le_mul_of_nonneg_right (by omega) h.nonneg

end Fits

namespace Utf8

theorem count_le_length (s : Bytes) : count s ≤ s.length := by
  have hfrom : ∀ skip, (decodeFrom skip s).length ≤ s.length := by
    induction s with
    | nil => exact fun _ => Nat.le_refl 0
    | cons b rest ih =>
      intro skip
      cases skip with
      | zero => exact Nat.succ_le_succ (ih _)
      | succ skip => exact Nat.le_succ_of_le (ih skip)
  exact hfrom 0

theorem count_trimLeft_le (s : Bytes) : count (trimLeft s) ≤ s.length := by
  have hsplit : decode s = (decode s).takeWhile blank ++ (decode s).dropWhile blank :=
    List.takeWhile_append_dropWhile.symm
  have hcount : count (trimLeft s) = ((decode s).dropWhile blank).length := by
    unfold count trimLeft
    rw [(decode_encode_of_eq_append hsplit).2]
  have hdrop := (List.dropWhile_sublist (l := decode s) blank).length_le
  have hle := count_le_length s
  unfold count at hle
  omega

end Utf8

namespace Markup

/-- The offset of an opening tag as an integer: the column of its first attribute less one tab. -/
def exactOffset (width : Int) (line : Line) (more text : Bytes) : Int :=
  match attributeGap? more with
  | some gap => Utf8.count (trimLeft line.raw) + Utf8.count text + gap - width
  | none => 0

theorem gap_le_length {rest : Bytes} {gap : Nat} (h : attributeGap? rest = some gap) :
    gap ≤ rest.length := by
  rw [(attributeGap?_eq_some h).1]
  exact (List.takeWhile_sublist isGap).length_le

variable {width : Int64} {size : Nat} {line : Line} {more text : Bytes}

theorem exactOffset_bounds (h : Fits width size)
    (hsize : line.raw.length + text.length + more.length ≤ size) :
    -width.toInt ≤ exactOffset width.toInt line more text ∧
      exactOffset width.toInt line more text ≤ size := by
  have hnonneg := h.nonneg
  unfold exactOffset
  split
  · next gap hgap =>
    have hline := Utf8.count_trimLeft_le line.raw
    have htext := Utf8.count_le_length text
    have hmore := gap_le_length hgap
    constructor
    · omega
    · omega
  · constructor
    · omega
    · omega

theorem toInt_openTag (h : Fits width size)
    (hsize : line.raw.length + text.length + more.length ≤ size) :
    (openTag ⟨width, line, more⟩ text).offset.toInt = exactOffset width.toInt line more text := by
  have hlt := h.tabs_lt (Nat.zero_le _)
  have hnonneg := h.nonneg
  have hwidth := width.toInt_lt
  unfold openTag exactOffset
  dsimp only
  cases hgap : attributeGap? more with
  | none => rfl
  | some gap =>
    have hline := Utf8.count_trimLeft_le line.raw
    have htext := Utf8.count_le_length text
    have hmore := gap_le_length hgap
    have hcolumn : line.column.toInt = Utf8.count (trimLeft line.raw) :=
      Int64.toInt_ofNat_of_lt (by omega)
    have hcount : (Int64.ofNat (Utf8.count text)).toInt = Utf8.count text :=
      Int64.toInt_ofNat_of_lt (by omega)
    have hgap : (Int64.ofNat gap).toInt = gap := Int64.toInt_ofNat_of_lt (by omega)
    have hname : (line.column + Int64.ofNat (Utf8.count text)).toInt =
        Utf8.count (trimLeft line.raw) + Utf8.count text := by
      rw [Int64.toInt_add, hcolumn, hcount, bmod_of_range (by omega) (by omega)]
    have hfirst : (line.column + Int64.ofNat (Utf8.count text) + Int64.ofNat gap).toInt =
        Utf8.count (trimLeft line.raw) + Utf8.count text + gap := by
      rw [Int64.toInt_add, hname, hgap, bmod_of_range (by omega) (by omega)]
    rw [Int64.toInt_sub, hfirst, bmod_of_range (by omega) (by omega)]

end Markup

namespace ScriptState

/-- What a token makes of the offsets of a script, in integers. -/
structure Adds (width : Int) (s s' : ScriptState) : Prop where
  line : s'.lineOffset.toInt = s.lineOffset.toInt ∨ s'.lineOffset.toInt = s.base.toInt ∨
    s'.lineOffset.toInt = s.base.toInt + width
  frames : ∀ x ∈ s'.offsets, x = s'.lineOffset ∨ x ∈ s.offsets

/-- All offsets that a script knows lie between zero and a bound. -/
def Within (bound : Int) (s : ScriptState) : Prop :=
  ∀ x ∈ s.lineOffset :: s.offsets, 0 ≤ x.toInt ∧ x.toInt ≤ bound

variable {s s' : ScriptState} {sight : Sight} {text : Bytes} {bound bound' : Int}

theorem within_start (h : 0 ≤ bound) : Within bound {} := by
  intro x hx
  rw [List.mem_singleton.1 hx]
  exact ⟨Int.le_refl 0, h⟩

theorem Within.base (h : s.Within bound) (hbound : 0 ≤ bound) :
    0 ≤ s.base.toInt ∧ s.base.toInt ≤ bound := by
  rw [base_eq]
  cases hoffsets : s.offsets with
  | nil => exact ⟨Int.le_refl 0, hbound⟩
  | cons x rest =>
    refine h x (List.mem_cons_of_mem _ ?_)
    rw [hoffsets]
    exact List.mem_cons_self

/-- A token adds at most one tab, and only if it starts its line. -/
theorem Shifts.adds (h : s.Shifts sight text s') (hs : s.Within bound) (hbound : 0 ≤ bound)
    (hwidth : 0 ≤ sight.tabWidth.toInt) (hle : bound ≤ bound') (hlt : bound' < 2 ^ 63)
    (htab : sight.atStart = true → allBlank text = false → bound + sight.tabWidth.toInt ≤ bound') :
    s.Adds sight.tabWidth.toInt s' ∧ s'.Within bound' := by
  have hbase := hs.base hbound
  have hkept := hs s.lineOffset List.mem_cons_self
  have hline : s.Adds sight.tabWidth.toInt s' ∧
      0 ≤ s'.lineOffset.toInt ∧ s'.lineOffset.toInt ≤ bound' := by
    rcases h.line with heq | heq | ⟨hstart, hvisible, heq⟩
    · rw [← heq] at hkept
      exact ⟨⟨Or.inl (by rw [heq]), h.frames⟩, by omega, by omega⟩
    · rw [← heq] at hbase
      exact ⟨⟨Or.inr (Or.inl (by rw [heq])), h.frames⟩, by omega, by omega⟩
    · have hsum := htab hstart hvisible
      have hexact : s'.lineOffset.toInt = s.base.toInt + sight.tabWidth.toInt := by
        rw [heq, Int64.toInt_add, bmod_of_range (by omega) (by omega)]
      exact ⟨⟨Or.inr (Or.inr hexact), h.frames⟩, by omega, by omega⟩
  refine ⟨hline.1, fun x hx => ?_⟩
  rcases List.mem_cons.1 hx with heq | hx
  · rw [heq]
    exact hline.2
  · rcases h.frames x hx with heq | hx
    · rw [heq]
      exact hline.2
    · have hin := hs x (List.mem_cons_of_mem _ hx)
      exact ⟨hin.1, Int.le_trans hin.2 hle⟩

end ScriptState

/-- The number of lines that may have added a tab by now. -/
def Line.tabs (i : Nat) (line : Line) : Nat := if line.isBlank then i else i + 1

theorem Line.tabs_le (i : Nat) (line : Line) : line.tabs i ≤ i + 1 := by
  unfold tabs
  split_ifs
  · omega
  · omega

theorem Line.tabs_append (i : Nat) (line : Line) (t : Token) :
    line.tabs i ≤ (line.append t).tabs i ∧
      (line.isBlank = true → t.isBlank = false → line.tabs i + 1 ≤ (line.append t).tabs i) := by
  unfold tabs
  rw [isBlank_append]
  cases line.isBlank <;> cases t.isBlank <;> simp

namespace Scan

/-- What the arithmetic of a reading comes to, in integers, on the line with index `i`. -/
structure Reading.Exact (width : Int64) (size i : Nat) (line : Line) (more : Bytes) (r : Reading) :
    Prop where
  script : ∀ s', .script s' ∈ r.after.modes →
    s' = {} ∨ ∃ s, .script s ∈ r.before.modes ∧ s.Adds width.toInt s'
  tag : ∀ o', .tag o' ∈ r.after.modes →
    o'.offset.toInt = Markup.exactOffset width.toInt line more r.token.text ∨
      ∃ o, .tag o ∈ r.before.modes ∧ o'.offset = o.offset
  token : r.token.offset.toInt ∈ [0, width.toInt, -width.toInt] ∨
    (∃ o, .tag o ∈ r.before.modes ∧ r.token.offset = o.offset) ∨
    ∃ s, .script s ∈ r.after.modes ∧ r.token.offset = s.lineOffset
  within : ∀ s, .script s ∈ r.after.modes → s.Within ((i + 1 : Nat) * width.toInt)
  low : -width.toInt ≤ r.token.offset.toInt
  high : r.token.offset.toInt ≤ max ((i + 1 : Nat) * width.toInt) size

/-- What is known between two tokens. Lines in front of this one, and this one if it has started,
have added at most a tab each to the offsets of a script. -/
structure Bounded (width : Int64) (size i : Nat) (state : State) (line : Line) (rest : Bytes) :
    Prop where
  length : i + line.raw.length + rest.length ≤ size
  scripts : ∀ s, .script s ∈ state.modes.modes → s.Within (line.tabs i * width.toInt)
  tags : ∀ o : OpenTag, .tag o ∈ state.modes.modes →
    -width.toInt ≤ o.offset.toInt ∧ o.offset.toInt ≤ size

section Steps
variable {width : Int64} {size i : Nat} {state : State} {line : Line} {text more rest : Bytes}

/-- The scripts behind a token: at most one tab was added, if the token starts the line. -/
theorem Bounded.scripts_of_reads (hfits : Fits width size)
    (h : Bounded width size i state line rest) (hi : i ≤ size) {after : List Mode} {t : Token}
    (hreads : Mode.Reads ⟨width, line, more⟩ state.modes.modes after t) (s' : ScriptState)
    (hs' : .script s' ∈ after) :
    (s' = {} ∨ ∃ s, .script s ∈ state.modes.modes ∧ s.Adds width.toInt s') ∧
      s'.Within ((line.append t).tabs i * width.toInt) := by
  obtain ⟨htabs, hstarts⟩ := line.tabs_append i t
  have hlast := (line.append t).tabs_le i
  have hlt := hfits.tabs_lt (k := (line.append t).tabs i) (by omega)
  rcases hreads.modes _ hs' with hnew | ⟨s, hs, hshifts⟩
  · rw [hnew]
    exact ⟨Or.inl rfl, ScriptState.within_start (hfits.mul_nonneg _)⟩
  · have hmore : line.isBlank = true → allBlank t.text = false →
        line.tabs i * width.toInt + width.toInt ≤ (line.append t).tabs i * width.toInt := by
      intro hblank hvisible
      have hmul := hfits.mul_le (hstarts hblank hvisible)
      rwa [Nat.cast_add, Nat.cast_one, Int.add_mul, Int.one_mul] at hmul
    obtain ⟨hadds, hwithin⟩ := hshifts.adds (h.scripts s hs) (hfits.mul_nonneg _) hfits.nonneg
      (hfits.mul_le htabs) (by omega) hmore
    exact ⟨Or.inr ⟨s, hs, hadds⟩, hwithin⟩

theorem Bounded.tags_of_reads (hfits : Fits width size)
    (h : Bounded width size i state line (text ++ more)) {after : List Mode} {t : Token}
    (htext : t.text = text)
    (hreads : Mode.Reads ⟨width, line, more⟩ state.modes.modes after t) (o' : OpenTag)
    (ho' : .tag o' ∈ after) :
    (o'.offset.toInt = Markup.exactOffset width.toInt line more t.text ∨
      ∃ o, .tag o ∈ state.modes.modes ∧ o'.offset = o.offset) ∧
      -width.toInt ≤ o'.offset.toInt ∧ o'.offset.toInt ≤ size := by
  have hlength := h.length
  rw [List.length_append] at hlength
  have hsize : line.raw.length + t.text.length + more.length ≤ size := by
    rw [htext]
    omega
  rcases hreads.modes _ ho' with hnew | ⟨o, ho, hoffset⟩
  · rw [hnew, Markup.toInt_openTag hfits hsize]
    exact ⟨Or.inl rfl, Markup.exactOffset_bounds hfits hsize⟩
  · rw [hoffset]
    exact ⟨Or.inr ⟨o, ho, rfl⟩, h.tags o ho⟩

/-- The offset of a token, by those of the modes around it. -/
theorem offset_of_shifted (hfits : Fits width size) {before after : List Mode} {t : Token}
    (h : t.Shifted width before after)
    (htags : ∀ o : OpenTag, .tag o ∈ before → -width.toInt ≤ o.offset.toInt ∧ o.offset.toInt ≤ size)
    (hscripts : ∀ s, .script s ∈ after → s.Within ((i + 1 : Nat) * width.toInt)) :
    (t.offset.toInt ∈ [0, width.toInt, -width.toInt] ∨
      (∃ o, .tag o ∈ before ∧ t.offset = o.offset) ∨
      ∃ s, .script s ∈ after ∧ t.offset = s.lineOffset) ∧
      -width.toInt ≤ t.offset.toInt ∧
      t.offset.toInt ≤ max ((i + 1 : Nat) * width.toInt) size := by
  have hnonneg := hfits.nonneg
  have htab : width.toInt ≤ (i + 1 : Nat) * width.toInt := by
    have hone := hfits.mul_le (j := 1) (k := i + 1) (by omega)
    rwa [Nat.cast_one, Int.one_mul] at hone
  cases h with
  | none hoffset =>
    have hzero : t.offset.toInt = 0 := by
      rw [hoffset]
      rfl
    rw [hzero]
    exact ⟨Or.inl (by simp), by omega, by omega⟩
  | tab hoffset =>
    rw [hoffset]
    exact ⟨Or.inl (by simp), by omega, by omega⟩
  | back hoffset =>
    have hlt := width.toInt_lt
    have hneg : t.offset.toInt = -width.toInt := by
      rw [hoffset, Int64.toInt_neg, bmod_of_range (by omega) (by omega)]
    rw [hneg]
    exact ⟨Or.inl (by simp), by omega, by omega⟩
  | tag ho hoffset =>
    have hin := htags _ ho
    rw [hoffset]
    exact ⟨Or.inr (Or.inl ⟨_, ho, rfl⟩), by omega, by omega⟩
  | script hs hoffset =>
    have hin := hscripts _ hs _ List.mem_cons_self
    rw [hoffset]
    exact ⟨Or.inr (Or.inr ⟨_, hs, rfl⟩), by omega, by omega⟩

theorem Bounded.reads (hfits : Fits width size) (h : Bounded width size i state line (text ++ more))
    (after : State) {t : Token} (htext : t.text = text)
    (hreads : Mode.Reads ⟨width, line, more⟩ state.modes.modes after.modes.modes t) :
    Reading.Exact width size i line more ⟨state.modes, t.numbered line.number, after.modes⟩ ∧
      Bounded width size i after (line.append t) more := by
  have hlength := h.length
  rw [List.length_append] at hlength
  have hscripts := h.scripts_of_reads hfits (by omega) hreads
  have htags := h.tags_of_reads hfits htext hreads
  have hwithin : ∀ s, .script s ∈ after.modes.modes → s.Within ((i + 1 : Nat) * width.toInt) := by
    intro s hs x hx
    have hin := (hscripts s hs).2 x hx
    exact ⟨hin.1, Int.le_trans hin.2 (hfits.mul_le ((line.append t).tabs_le i))⟩
  obtain ⟨htoken, hlow, hhigh⟩ := offset_of_shifted hfits hreads.token h.tags hwithin
  constructor
  · exact ⟨fun s hs => (hscripts s hs).1, fun o ho => (htags o ho).1, htoken, hwithin, hlow, hhigh⟩
  · refine ⟨?_, fun s hs => (hscripts s hs).2, fun o ho => (htags o ho).2⟩
    rw [Line.raw_append, List.length_append, htext]
    omega

/-- Along a run over a document that fits, all arithmetic is exact. -/
theorem keeps_bounded {settings : Settings} (hfits : Fits settings.tabWidth size) :
    Whole.Keeps settings (Reading.Exact settings.tabWidth size)
      (Bounded settings.tabWidth size) where
  gap i state line text more h := by
    dsimp only
    have hreads := reads_readText ⟨settings.tabWidth, line, more⟩ state.modes text
    exact h.reads hfits { state with modes := state.modes.setActive _ }
      (Mode.text_readText _ _ text) hreads
  lexeme i state line lexeme text more h hv := by
    dsimp only
    have hreads := reads_readLexeme settings [] state ⟨settings.tabWidth, line, more⟩ lexeme hv
    exact h.reads hfits _ (text_readLexeme settings [] state _ lexeme text) hreads
  newline i state line rest h := by
    have hlength := h.length
    rw [List.length_cons] at hlength
    have hraw : line.next.raw = [] := rfl
    have htabs : line.next.tabs (i + 1) = i + 1 := rfl
    refine ⟨?_, fun s hs x hx => ?_, h.tags⟩
    · rw [hraw, List.length_nil]
      omega
    · have hin := h.scripts s hs x hx
      rw [htabs]
      exact ⟨hin.1, Int.le_trans hin.2 (hfits.mul_le (line.tabs_le i))⟩

end Steps

theorem bounded_start {width : Int64} {source : Bytes} (hfits : Fits width source.length)
    (language : Language) :
    Bounded width source.length 0 { modes := language.start } { number := 1 } source := by
  refine ⟨?_, fun s hs => ?_, fun o ho => ?_⟩
  · have hraw : ({ number := 1 } : Line).raw = [] := rfl
    rw [hraw, List.length_nil]
    omega
  · have hnew : s = {} := by
      cases language with
      | javaScript => simpa [Language.start, ModeStack.modes] using hs
      | _ => simp [Language.start, ModeStack.modes] at hs
    rw [hnew]
    exact ScriptState.within_start (hfits.mul_nonneg _)
  · cases language <;> simp [Language.start, ModeStack.modes] at ho

end Scan
end Reindent
