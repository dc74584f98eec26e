import Mathlib.Algebra.Group.Int.Defs
import Reindent.Formatter
import Reindent.Proofs.Layout.Nesting
import Reindent.Proofs.Limits

/-! The layout of a tree: one item a line, each indented by its depth. -/
namespace Reindent
open Bytes Scope Scan

/-- Every block that opens closes further down. -/
def Closed : List Row → Prop
  | [] => True
  | row :: below =>
    (∀ name, row.item = .openBlock name → ∃ r ∈ below, r.item = .closeBlock name) ∧ Closed below

theorem Closed.append {rows rows' : List Row} (h : Closed rows) (h' : Closed rows') :
    Closed (rows ++ rows') := by
  induction rows with
  | nil => exact h'
  | cons row below ih =>
    refine ⟨fun name hname => ?_, ih h.2⟩
    obtain ⟨r, hr, hitem⟩ := h.1 name hname
    exact ⟨r, List.mem_append_left _ hr, hitem⟩

mutual

theorem Forest.closed_rows (f : Forest) (depth : Nat) : Closed (f.rows depth) := by
  match f with
  | .nil => exact trivial
  | .text line others =>
    rw [Forest.rows]
    exact ⟨by simp, others.closed_rows depth⟩
  | .void name others =>
    rw [Forest.rows]
    exact ⟨by simp, others.closed_rows depth⟩
  | .element name content others =>
    rw [Forest.rows]
    have hothers : Closed (⟨depth, .closeElement name⟩ :: others.rows depth) :=
      ⟨by simp, others.closed_rows depth⟩
    exact ⟨by simp, (content.closed_rows (depth + 1)).append hothers⟩
  | .block name content branches others =>
    rw [Forest.rows]
    have hothers : Closed (⟨depth, .closeBlock name⟩ :: others.rows depth) :=
      ⟨by simp, others.closed_rows depth⟩
    refine ⟨?_, ((content.closed_rows (depth + 1)).append (branches.closed_rows depth)).append
      hothers⟩
    rintro _ ⟨⟩
    exact ⟨⟨depth, .closeBlock name⟩, by simp, rfl⟩

theorem Branches.closed_rows (b : Branches) (depth : Nat) : Closed (b.rows depth) := by
  match b with
  | .nil => exact trivial
  | .cons content others =>
    rw [Branches.rows]
    exact ⟨by simp, (content.closed_rows (depth + 1)).append (others.closed_rows depth)⟩

end

def Row.Spells (row : Row) (text : Bytes) : Prop :=
  ∃ margin, (∀ b ∈ margin, isGap b = true) ∧ text = margin ++ row.item.bytes

theorem Row.Spells.newline_notMem {row : Row} {text : Bytes} (h : row.Spells text) :
    newline ∉ text := by
  obtain ⟨margin, hm, rfl⟩ := h
  rw [List.mem_append, not_or]
  refine ⟨fun hn => ?_, row.item.newline_notMem_bytes⟩
  exact absurd (hm _ hn) (by decide)

/-- The end tag of an opening block is below it. -/
private theorem isSome_findEndTag_of_closed {row : Row} {rows : List Row} {texts : List Bytes}
    (hclosed : Closed (row :: rows)) (hs : List.Forall₂ Row.Spells rows texts) (name : BlockName)
    (hname : row.item = .openBlock name) :
    (findEndTag [] name.bytes (newline :: joinLines texts)).isSome = true := by
  obtain ⟨r, hr, hitem⟩ := hclosed.1 name hname
  obtain ⟨text, htext, hspells⟩ : ∃ text ∈ texts, r.Spells text := by
    clear hclosed
    induction hs with
    | nil => exact absurd hr (by simp)
    | cons hrow hrest ih =>
      rcases List.mem_cons.1 hr with rfl | hr
      · exact ⟨_, List.mem_cons_self, hrow⟩
      · obtain ⟨text, htext, hspells⟩ := ih hr
        exact ⟨text, List.mem_cons_of_mem _ htext, hspells⟩
  obtain ⟨margin, -, rfl⟩ := hspells
  rw [hitem] at htext
  exact isSome_findEndTag_of_mem htext

/-- All lines of a tree are read as their items, whatever the memory holds that is right. -/
theorem readLines_rows (settings : Settings) (hblocks : settings.blocks = []) {document : Bytes}
    {rows : List Row} {texts : List Bytes} (hne : rows ≠ []) (hclosed : Closed rows)
    (hs : List.Forall₂ Row.Spells rows texts) {memory : Lookahead}
    (hsound : Lookahead.Sound [] document memory) (hdoc : joinLines texts <:+ document)
    (number : Int64) :
    ∃ state ls, List.Forall₂ Row.Shows rows ls ∧
      readLines settings (between memory) number (linesBelow (joinLines texts)) =
        (state, .ok ls) := by
  induction hs generalizing memory number with
  | nil => exact absurd rfl hne
  | @cons row text rows texts hrow hrest ih =>
    have hnotMem := hrow.newline_notMem
    obtain ⟨margin, hm, rfl⟩ := hrow
    cases hrest with
    | nil =>
      have hend : ∀ name, row.item = .openBlock name →
          (findEndTag [] name.bytes []).isSome = true := by
        intro name hname
        obtain ⟨r, hr, -⟩ := hclosed.1 name hname
        exact absurd hr (by simp)
      obtain ⟨memory', -, hline⟩ := readLine_item hblocks number hsound (List.nil_suffix) hm
        row.item hend
      refine ⟨between memory', [_], .cons ⟨margin, number, hm, rfl⟩ .nil, ?_⟩
      rw [show joinLines [margin ++ row.item.bytes] = margin ++ row.item.bytes from rfl,
        linesBelow_of_notMem hnotMem, readLines_cons, hline]
      rfl
    | cons hrow' hrest' =>
      rw [joinLines_cons (List.cons_ne_nil _ _)] at hdoc ⊢
      have hbelow := (List.suffix_append _ _).trans hdoc
      have hend := isSome_findEndTag_of_closed hclosed (.cons hrow' hrest')
      obtain ⟨memory', hsound', hline⟩ := readLine_item hblocks number hsound hbelow hm
        row.item hend
      obtain ⟨state, ls, hshows, hlines⟩ := ih (by simp) hclosed.2 hsound'
        ((List.suffix_cons _ _).trans hbelow) (number + 1)
      refine ⟨state, _ :: ls, .cons ⟨margin, number, hm, rfl⟩ hshows, ?_⟩
      rw [linesBelow_append_newline hnotMem, readLines_cons, hline]
      dsimp only
      rw [hlines]

def Row.indented (width : Int64) (row : Row) : Bytes :=
  List.replicate (width.toInt.toNat * row.depth) 32 ++ row.item.bytes

private theorem toInt_mul_ofNat {width : Int64} {depth : Nat} (hwidth : 0 ≤ width)
    (hfits : width.toInt * depth < 2 ^ 63) :
    (width * Int64.ofNat depth).toInt = width.toInt * depth := by
  have hw : 0 ≤ width.toInt := Int64.le_iff_toInt_le.1 hwidth
  have hlow : 0 ≤ width.toInt * depth := Int.mul_nonneg hw (Int.natCast_nonneg depth)
  rw [Int64.toInt_mul, Int64.toInt_ofNat']
  have hsize : (Int64.size : Int) = 2 ^ 64 := rfl
  rw [Int.mul_bmod_bmod]
  apply Int.bmod_eq_of_le
  · omega
  · omega

theorem Row.Laid.indent {row : Row} {l : Line} (h : row.Laid l) {width : Int64}
    (hwidth : 0 ≤ width) (hfits : width.toInt * row.depth < 2 ^ 63) :
    l.indent width = row.indented width := by
  obtain ⟨margin, hm, hraw⟩ := h.raw
  have htext : l.text = row.item.bytes := by
    have htrim := Text.trim_append_append (m := row.item.bytes) (Text.allBlank_of_isGap hm)
      (show Text.allBlank [] = true from rfl)
    rw [List.append_nil] at htrim
    rw [Line.text, hraw, htrim, row.item.trim_bytes]
  have hmargin : l.margin width = width.toInt.toNat * row.depth := by
    have hw : 0 ≤ width.toInt := Int64.le_iff_toInt_le.1 hwidth
    rw [Line.margin, h.level, h.offset, Int64.add_zero, toInt_mul_ofNat hwidth hfits]
    rw [Int.toNat_mul hw (Int.natCast_nonneg _), Int.toNat_natCast]
  unfold Line.indent Row.indented
  rw [h.ignore, if_neg Bool.false_ne_true, htext, hmargin]
  split_ifs with hsmall
  · rcases hsmall with hempty | hzero
    · exact absurd (List.isEmpty_iff.1 hempty) row.item.bytes_ne_nil
    · have hw : width.toInt.toNat = 0 := by
        rw [Int.toNat_eq_zero]
        exact Int64.le_iff_toInt_le.1 hzero
      rw [hw, Nat.zero_mul]
      rfl
  · rfl

private theorem forall₂_zipWith {margins : List Bytes} {rows : List Row}
    (hlength : margins.length = rows.length) (hgap : ∀ m ∈ margins, ∀ b ∈ m, isGap b = true) :
    List.Forall₂ Row.Spells rows
      (List.zipWith (fun margin row => margin ++ row.item.bytes) margins rows) := by
  induction rows generalizing margins with
  | nil =>
    rw [List.zipWith_nil_right]
    exact .nil
  | cons row rows ih =>
    cases margins with
    | nil => exact absurd hlength (by simp)
    | cons margin margins =>
      refine .cons ⟨margin, hgap margin List.mem_cons_self, rfl⟩ (ih ?_ ?_)
      · simpa using hlength
      · exact fun m hm => hgap m (List.mem_cons_of_mem _ hm)

private theorem map_indent {rows : List Row} {laid : List Line}
    (h : List.Forall₂ Row.Laid rows laid) {width : Int64} (hwidth : 0 ≤ width)
    (hfits : ∀ row ∈ rows, width.toInt * row.depth < 2 ^ 63) :
    laid.map (·.indent width) = rows.map (·.indented width) := by
  induction h with
  | nil => rfl
  | cons hrow hrest ih =>
    rw [List.map_cons, List.map_cons, hrow.indent hwidth (hfits _ List.mem_cons_self),
      ih fun row hr => hfits row (List.mem_cons_of_mem _ hr)]

private theorem indent_of_assign {width : Int64} (hwidth : 0 ≤ width) {source : Bytes}
    {read laid : List Line}
    (hread : tokenize { tabWidth := width } Language.html.start source = .ok read)
    (hassign : assign read = .ok laid) :
    ({ tabWidth := width } : Formatter).indent source =
      .ok (joinLines (laid.map (·.indent width))) := by
  have hlines : ({ tabWidth := width } : Formatter).lines source = .ok laid := by
    unfold Formatter.lines
    rw [if_neg (Int64.not_lt.2 hwidth), parse_eq, hread]
    dsimp only
    rw [hassign]
    rfl
  unfold Formatter.indent
  rw [hlines]
  rfl

/-- A tree whose lines have any gaps in front is laid out by depth: every line gets as many times
the tab width as there are elements and blocks around its item. -/
theorem indent_forest (f : Forest) (margins : List Bytes)
    (hlength : margins.length = (f.rows 0).length)
    (hgap : ∀ m ∈ margins, ∀ b ∈ m, isGap b = true) (width : Int64) (hwidth : 0 ≤ width)
    (hfits : ∀ row ∈ f.rows 0, width.toInt * row.depth < 2 ^ 63) :
    ({ tabWidth := width } : Formatter).indent
        (joinLines (List.zipWith (fun margin row => margin ++ row.item.bytes) margins (f.rows 0))) =
      .ok (joinLines ((f.rows 0).map fun row =>
        List.replicate (width.toInt.toNat * row.depth) 32 ++ row.item.bytes)) := by
  have hspells := forall₂_zipWith hlength hgap
  by_cases hnil : f.rows 0 = []
  · rw [hnil, List.zipWith_nil_right, List.map_nil]
    have htrim : Text.trim [] = [] := rfl
    have hassign : assign [{ number := 1 }] = .ok [{ number := 1 }] := rfl
    refine (indent_of_assign hwidth (tokenize_nil _ _) hassign).trans ?_
    simp [Line.indent, Line.text, Line.raw, joinLines, htrim]
  · obtain ⟨state, read, hshows, hread⟩ := readLines_rows { tabWidth := width } rfl
      hnil (f.closed_rows 0) hspells (Lookahead.sound_nil [] _) (List.suffix_refl _) 1
    obtain ⟨laid, hlaid, hpass⟩ := f.runs (show nextLevel [] = Int64.ofNat 0 from rfl) hshows []
    have htokens : tokenize { tabWidth := width } Language.html.start
        (joinLines (List.zipWith (fun margin row => margin ++ row.item.bytes) margins
          (f.rows 0))) = .ok read := by
      unfold tokenize run
      change (readLines { tabWidth := width } (between []) 1 _).2 = _
      rw [hread]
    have hassign : assign read = .ok laid := by
      rw [List.append_nil] at hpass
      unfold assign Scope.pass
      rw [hpass]
      simp [passLines, Pass.prepend]
    rw [indent_of_assign hwidth htokens hassign, map_indent hlaid hwidth hfits]
    rfl

/-- An element around a block of two branches, with a line of text in the first and an element
without content in the second. -/
def smallForest : Forest :=
  .element ⟨100, ascii "iv", by decide, fun b hb => Or.inl (List.all_eq_true.1 rfl b hb), by decide⟩
    (.block ⟨ascii "if", by decide, List.all_eq_true.1 rfl, by decide, by decide⟩
      (.text ⟨ascii "x", by decide, by decide, by decide⟩ .nil)
      (.cons (.void ⟨ascii "Br", by decide⟩ .nil) .nil) .nil) .nil

theorem indent_forest_small :
    ({ tabWidth := 2 } : Formatter).indent
        (joinLines [ascii "<div>", ascii "\t\x7b% if %\x7d", ascii " x", ascii "\x7b% else %\x7d",
          ascii "<Br>", ascii "    \x7b% endif %\x7d", ascii " \t</div>"]) =
      .ok (joinLines [ascii "<div>", ascii "  \x7b% if %\x7d", ascii "    x",
        ascii "  \x7b% else %\x7d", ascii "    <Br>", ascii "  \x7b% endif %\x7d",
        ascii "</div>"]) :=
  indent_forest smallForest
    [[], ascii "\t", ascii " ", [], [], ascii "    ", ascii " \t"] (by decide)
    (by simp [ascii, isGap]) 2 (by decide) (by decide)

end Reindent
