import Reindent.Proofs.Respacing.PlainPages
import Reindent.Proofs.Safety

/-! Reindenting a document that was reindented before. -/
namespace Reindent
open Bytes Text

/-- Lines that come out alike: they nest alike, and their texts differ at most in the white space
around them, which a line that is not verbatim loses. -/
structure Line.Twin (l₁ l₂ : Line) : Prop where
  outline : l₁.outline = l₂.outline
  verbatim : l₁.startsVerbatim = l₂.startsVerbatim
  raw : l₁.startsVerbatim = true → l₁.raw = l₂.raw
  trim : trim l₁.raw = trim l₂.raw

namespace Scope

theorem passLine_of_twin {l₁ l₂ : Line} (h : l₁.Twin l₂) (stack : Stack) (width : Int64) :
    (passLine stack l₁).1 = (passLine stack l₂).1 ∧
      (passLine stack l₁).2.2 = (passLine stack l₂).2.2 ∧
      (passLine stack l₁).2.1.indent width = (passLine stack l₂).2.1.indent width := by
  obtain ⟨hprogress, herror⟩ := Progress.walk_of_outline h.outline stack
  have hraw₁ := raw_passLine stack l₁
  have hraw₂ := raw_passLine stack l₂
  refine ⟨congrArg Progress.stack hprogress, herror, ?_⟩
  have hignore : (passLine stack l₁).2.1.ignore = (passLine stack l₂).2.1.ignore := h.verbatim
  have hmargin : (passLine stack l₁).2.1.margin width = (passLine stack l₂).2.1.margin width := by
    change (width * (Progress.walk { stack } l₁.tokens).1.level +
      (Progress.walk { stack } l₁.tokens).1.offset).toInt.toNat = _
    rw [hprogress]
    rfl
  have htext : (passLine stack l₁).2.1.text = (passLine stack l₂).2.1.text := by
    unfold Line.text
    rw [hraw₁, hraw₂, h.trim]
  unfold Line.indent
  rw [hignore, hmargin, htext, hraw₁, hraw₂]
  split_ifs with hverbatim
  · exact h.raw (hignore.trans hverbatim)
  · rfl
  · rfl

theorem passLines_of_twins {lines₁ lines₂ : List Line} (h : List.Forall₂ Line.Twin lines₁ lines₂)
    (stack : Stack) (width : Int64) :
    (passLines stack lines₁).stack = (passLines stack lines₂).stack ∧
      (passLines stack lines₁).error? = (passLines stack lines₂).error? ∧
      ((passLines stack lines₂).error? = none →
        (passLines stack lines₁).lines.map (·.indent width) =
          (passLines stack lines₂).lines.map (·.indent width)) := by
  induction h generalizing stack with
  | nil => exact ⟨rfl, rfl, fun _ => rfl⟩
  | @cons l₁ l₂ lines₁ lines₂ hl _ ih =>
    obtain ⟨hstack, herror, hindent⟩ := passLine_of_twin hl stack width
    rw [passLines, passLines]
    generalize passLine stack l₁ = pass₁ at *
    generalize passLine stack l₂ = pass₂ at *
    obtain ⟨stack₁, line₁, error₁⟩ := pass₁
    obtain ⟨stack₂, line₂, error₂⟩ := pass₂
    dsimp only at hstack herror hindent
    subst hstack herror
    cases error₁ with
    | some e => exact ⟨rfl, rfl, fun he => absurd he (by simp)⟩
    | none =>
      obtain ⟨hstack, herror, hlines⟩ := ih stack₁
      refine ⟨hstack, herror, fun he => ?_⟩
      dsimp only
      rw [List.map_cons, List.map_cons, hindent, hlines he]

theorem assign_of_twins {lines₁ lines₂ : List Line} (h : List.Forall₂ Line.Twin lines₁ lines₂)
    (width : Int64) :
    (assign lines₁).map (·.map (·.indent width)) = (assign lines₂).map (·.map (·.indent width)) := by
  obtain ⟨hstack, herror, hlines⟩ := passLines_of_twins h [] width
  rw [assign_eq, assign_eq, hstack, herror]
  cases he : (passLines [] lines₂).error? with
  | some e => rfl
  | none =>
    cases (passLines [] lines₂).stack with
    | cons t stack => rfl
    | nil => exact congrArg Except.ok (hlines he)

structure Placed (l l' : Line) : Prop where
  raw : l'.raw = l.raw
  ignore : l'.ignore = l.startsVerbatim

theorem placed_passLines {stack : Stack} {lines : List Line}
    (h : (passLines stack lines).error? = none) :
    List.Forall₂ Placed lines (passLines stack lines).lines := by
  induction lines generalizing stack with
  | nil => exact .nil
  | cons line rest ih =>
    have hplaced : Placed line (passLine stack line).2.1 := ⟨raw_passLine stack line, rfl⟩
    rw [passLines] at *
    generalize passLine stack line = pass at *
    obtain ⟨stack', line', error⟩ := pass
    cases error with
    | some e => exact absurd h (by simp)
    | none => exact .cons hplaced (ih h)

theorem placed_of_assign {lines lines' : List Line} (h : assign lines = .ok lines') :
    List.Forall₂ Placed lines lines' := by
  rw [assign_eq] at h
  split at h
  · exact absurd h (by simp)
  · exact absurd h (by simp)
  · next he _ =>
    obtain rfl := Except.ok.inj h
    exact placed_passLines he

end Scope

namespace Line
open Scan

/-- A line that comes out differs from the line that went in in the white space around it. -/
theorem respaced_indent {c : Contrast} (hc : ¬ c.same) (l : Line) (width : Int64) :
    Respaced c l.raw (l.indent width) := by
  obtain ⟨lead, trail, hraw, hlead, htrail⟩ := exists_eq_append_trim l.raw
  rw [List.append_assoc] at hraw
  unfold indent
  split_ifs
  · exact respaced_refl c l.raw
  · nth_rewrite 1 [hraw]
    change Respaced c _ ([] ++ l.text)
    exact .intro l.text hlead (by simp) htrail fun h => absurd h hc
  · nth_rewrite 1 [hraw]
    refine .intro l.text hlead (fun b hb => ?_) htrail fun h => absurd h hc
    rw [List.eq_of_mem_replicate hb]
    rfl

/-- A line read at the second tab width, and the line that is read where its result at the first tab
width stands. -/
theorem twin_of_matched {c₁ c₂ : Contrast} (hc : c₂.first = c₂.second) {l l₁ l₂ placed : Line}
    {width : Int64} (h₁ : Matched c₁ l l₁) (h₂ : Matched c₂ l₁ l₂) (hp : Scope.Placed l placed)
    (hraw₁ : l₁.raw = l.raw) (hraw₂ : l₂.raw = placed.indent width) : l₁.Twin l₂ := by
  obtain ⟨verbatim, hv, hv₁⟩ := h₁.verbatim
  obtain ⟨verbatim', hv₁', hv₂⟩ := h₂.verbatim
  have hignore : placed.ignore = l₁.startsVerbatim := by
    rw [hp.ignore, hv, hv₁, hraw₁]
  have hkept : l₁.startsVerbatim = true → l₁.raw = l₂.raw := by
    intro h
    rw [hraw₂, indent, if_pos (hignore.trans h), hp.raw, hraw₁]
  refine ⟨h₂.like.outline hc, ?_, hkept, ?_⟩
  · cases h : l₁.startsVerbatim with
    | true => rw [hv₂, ← hkept h, ← hv₁', h]
    | false =>
      rw [h] at hv₁' hignore
      rw [hv₂]
      cases verbatim' with
      | false => rfl
      | true =>
        -- a line that starts in a verbatim region and is not verbatim is empty
        have hnil : l₁.raw = [] := by simpa using hv₁'.symm
        have htext : placed.text = [] := by
          rw [text, hp.raw, ← hraw₁, hnil]
          rfl
        rw [hraw₂, indent, if_neg (by simp [hignore]), if_pos (Or.inl (by rw [htext]; rfl)), htext]
        rfl
  · rw [hraw₂, trim_indent, hp.raw, hraw₁]

theorem twins_of_matched {c₁ c₂ : Contrast} (hc : c₂.first = c₂.second) (width : Int64)
    {lines lines₁ lines₂ placed : List Line}
    (h₁ : List.Forall₂ (Matched c₁) lines lines₁) (h₂ : List.Forall₂ (Matched c₂) lines₁ lines₂)
    (hp : List.Forall₂ Scope.Placed lines placed)
    (hraw₁ : lines₁.map Line.raw = lines.map Line.raw)
    (hraw₂ : lines₂.map Line.raw = placed.map (·.indent width)) :
    List.Forall₂ Twin lines₁ lines₂ := by
  induction h₂ generalizing lines placed with
  | nil => exact .nil
  | cons hl₂ _ ih =>
    cases h₁ with
    | cons hl₁ h₁ =>
      cases hp with
      | cons hlp hp =>
        obtain ⟨hr₁, hraw₁⟩ := List.cons.inj hraw₁
        obtain ⟨hr₂, hraw₂⟩ := List.cons.inj hraw₂
        exact .cons (twin_of_matched hc hl₁ hl₂ hlp hr₁ hr₂) (ih h₁ hp hraw₁ hraw₂)

end Line
namespace Formatter
open Scan

theorem indent_eq (f : Formatter) (source : Bytes) :
    f.indent source =
      if f.tabWidth < 0 then .error (.error .tabWidth)
      else match tokenize { tabWidth := f.tabWidth, blocks := f.blocks } f.language.start source with
        | .error _ => .error .overrun
        | .ok read =>
          match (Scope.assign read).map (·.map (·.indent f.tabWidth)) with
          | .error e => .error (.error (.structural e.report))
          | .ok texts => .ok (joinLines texts) := by
  unfold indent Formatter.lines
  simp only [parse_eq]
  split_ifs
  · rfl
  · cases tokenize { tabWidth := f.tabWidth, blocks := f.blocks } f.language.start source with
    | error overrun => rfl
    | ok read =>
      dsimp only
      cases Scope.assign read with
      | error e => rfl
      | ok placed => rfl

/-- Reindenting a result at some other tab width is like reindenting the source at that tab width, if
all that is asked about the text around the lexemes of the source has a steady answer. -/
theorem indent_of_steady (f : Formatter) (width : Int64) {source out : Bytes}
    (hsteady : ∀ q ∈ questions { blocks := f.blocks } f.language.start source, q.Steady)
    (h : f.indent source = .ok out) :
    { f with tabWidth := width }.indent out = { f with tabWidth := width }.indent source := by
  obtain ⟨placed, hraw, hlines, hout⟩ := lines_of_indent h
  have hresult := lines_indent hraw hout
  unfold Formatter.lines at hlines
  split_ifs at hlines
  obtain ⟨read, hread, hassign⟩ := parse_eq_ok_iff.1 hlines
  -- the source at both tab widths
  obtain ⟨read₁, hread₁, hmatched₁⟩ := matched_tokenize (c := ⟨f.tabWidth, width, True⟩)
    f.language.start (List.forall₂_same.2 fun text _ => respaced_refl _ text) (Or.inl trivial) hread
  -- the source and the result
  have hrespaced : List.Forall₂ (Respaced ⟨width, width, False⟩) (Bytes.lines source)
      (Bytes.lines out) := by
    rw [hresult, ← hraw, List.forall₂_map_left_iff, List.forall₂_map_right_iff]
    exact List.forall₂_same.2 fun l _ => l.respaced_indent id f.tabWidth
  obtain ⟨read₂, hread₂, hmatched₂⟩ := matched_tokenize f.language.start hrespaced
    (Or.inr (by rwa [questions_eq f.blocks f.language.start source width 4])) hread₁
  have htwins : List.Forall₂ Line.Twin read₁ read₂ := by
    refine Line.twins_of_matched rfl f.tabWidth hmatched₁ hmatched₂
      (Scope.placed_of_assign hassign) ?_ ?_
    · rw [(tokenize_covers hread₁).raw, (tokenize_covers hread).raw]
    · rw [(tokenize_covers hread₂).raw, hresult]
  rw [indent_eq, indent_eq, hread₁, hread₂]
  dsimp only
  rw [Scope.assign_of_twins htwins]

/-- A page of which everything that is asked about end tags ahead, first attributes, types of scripts
and cuts in comments has a steady answer is reindented in the same way after it was reindented: what
comes out depends only on its text, not on the indentation that it has. -/
theorem reindent_html (v w : Int64) {source out : Bytes}
    (hsteady : ∀ q ∈ questions {} Language.html.start source, q.Steady)
    (h : ({ tabWidth := v } : Formatter).indent source = .ok out) :
    ({ tabWidth := w } : Formatter).indent out = ({ tabWidth := w } : Formatter).indent source :=
  indent_of_steady { tabWidth := v } w hsteady h

/-- A page of which everything is asked that may be asked: a block with what looks like an end tag over
two lines, tags over two lines, one of them that of a script, comments with and without a closing tag,
and a script that holds markup. -/
def tornPage : Bytes :=
  joinLines <| ["\x7b% if x %\x7d", "<p ", "\t id=a>", "</p>", "<script", " type=text/javascript>",
    "f( // \x7b", ")// </script> ", "<script type=text/html>", "<p>", "x", "</p>", "</script>",
    "\x7b% ", " endif \x7b% endif %\x7d "].map ascii

/-- The page without indentation. -/
def flatPage : Bytes :=
  joinLines <| ["\x7b% if x %\x7d", "<p", "id=a>", "</p>", "<script", "type=text/javascript>",
    "f( // \x7b", ")// </script>", "<script type=text/html>", "<p>", "x", "</p>", "</script>",
    "\x7b%", "endif \x7b% endif %\x7d"].map ascii

theorem reindent_html_tornPage :
    (questions {} Language.html.start tornPage).length = 8 ∧
      (∀ q ∈ questions {} Language.html.start tornPage, q.Steady) ∧
      ({ tabWidth := 3 } : Formatter).indent flatPage =
        ({ tabWidth := 3 } : Formatter).indent tornPage := by
  have hsteady : ∀ q ∈ questions {} Language.html.start tornPage, q.Steady := by decide +kernel
  exact ⟨by decide +kernel, hsteady, reindent_html 0 3 hsteady (by decide +kernel)⟩

/-- In particular a page with only blanks, tabs and carriage returns around its lines and without
characters that get longer in lower case, if every tag of a script is on one line. -/
theorem reindent_of_plain (v w : Int64) {source out : Bytes} (hplain : PlainPage source)
    (hscript : ∀ text, .script text ∉ questions {} Language.html.start source)
    (h : ({ tabWidth := v } : Formatter).indent source = .ok out) :
    ({ tabWidth := w } : Formatter).indent out = ({ tabWidth := w } : Formatter).indent source :=
  indent_of_steady { tabWidth := v } w (steady_of_plain hplain _ hscript) h

/-- Tabs and carriage returns around the lines, and a no-break space and an umlaut inside of one. -/
example : PlainPage
    (ascii "<p \r\n\tid=a>\r\n x" ++ [0xC2, 0xA0, 0xC3, 0x84] ++ ascii "\t\r\n</p>") := by
  decide +kernel

/-- Pages where an answer is not steady. The type of a script stands on a line of its own; a form
feed ends the line of a tag; a no-break space ends the first line of an end tag; a comment whose
letters get longer in lower case has a blank behind it. -/
def unsteadyPages : List Bytes :=
  [ascii "<script\ntype='text/html'>\n<p>\nx\n</p>\n</script>",
    ascii "<p \x0c\nid=a>\n</p>",
    ascii "\x7b% if x %\x7d\n\x7b%" ++ [0xC2, 0xA0] ++ ascii "\nendif %\x7d",
    ascii "<script>\n//" ++ (List.replicate 10 [0xC8, 0xBA]).flatten ++
      ascii "</script> \n</script>"]

theorem reindent_html_unsteadyPages :
    unsteadyPages.Forall fun source => ∃ out,
      ({ tabWidth := 4 } : Formatter).indent source = .ok out ∧
        ({ tabWidth := 4 } : Formatter).indent out ≠
          ({ tabWidth := 4 } : Formatter).indent source := by
  have hchanges : ∀ source ∈ unsteadyPages,
      (({ tabWidth := 4 } : Formatter).indent source).toOption.any (fun out =>
        decide (({ tabWidth := 4 } : Formatter).indent out ≠ .ok out)) = true := by
    decide +kernel
  rw [List.forall_iff_forall_mem]
  intro source hsource
  have h := hchanges source hsource
  cases hout : ({ tabWidth := 4 } : Formatter).indent source with
  | error e =>
    rw [hout] at h
    exact absurd h (by simp [Except.toOption])
  | ok out =>
    rw [hout] at h
    exact ⟨out, rfl, by simpa [Except.toOption] using h⟩

end Formatter
end Reindent
