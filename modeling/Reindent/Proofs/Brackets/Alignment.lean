import Reindent.Proofs.Brackets.Partners

/-! Closing brackets line up with their partners. A script keeps the offset of a line for every bracket
that the line opens, and a closing bracket at the start of a line gets it back. -/
namespace Reindent
open Bytes Text

/-- The offset of a line that is not verbatim: that of its first visible token. -/
def Line.shift? (l : Line) : Option Int64 :=
  if l.startsVerbatim then none else l.first?.map Token.offset

namespace Scope

/-- A frame holds the offset of the line of its bracket, if that line is not verbatim. -/
def Remembers (shifts : Nat → Option Int64) (f : Frame) (o : Mark) : Prop :=
  ∀ x ∈ shifts o.line, f.offset = x

variable {shifts : Nat → Option Int64} {opens : List Mark}

theorem remembers_step {leads : Bool} {m : Mark} {s s' : ScriptState}
    (h : ScriptState.Step leads m.token s s') (hline : ∀ x ∈ shifts m.line, s'.lineOffset = x)
    (hs : List.Forall₂ (Remembers shifts) s.frames opens) :
    List.Forall₂ (Remembers shifts) s'.frames (bracketStep opens m) := by
  have hframes := h.frames
  have hopened := h.opened
  generalize s.frames = fs at hframes hs hopened
  generalize s'.frames = fs' at hframes hopened
  cases hframes with
  | passes _ ho hc =>
    rw [bracketStep_of_neither ho hc]
    exact hs
  | opens f _ ho _ _ _ =>
    obtain ⟨rfl, -⟩ := List.cons.inj (hopened ho)
    rw [bracketStep_of_opens ho]
    exact .cons hline hs
  | closes hc _ _ _ =>
    rw [bracketStep_of_closes hc]
    cases hs with
    | cons _ hs => exact hs
  | surplus hc _ =>
    rw [bracketStep_of_closes hc, List.forall₂_nil_left_iff.1 hs]
    exact .nil
  | label _ ho hc _ _ _ _ =>
    rw [bracketStep_of_neither ho hc]
    cases hs with
    | cons hf hs => exact .cons hf hs

end Scope

namespace Scan
open Scope

variable {shifts : Nat → Option Int64} {opens : List Mark} {modes final : ModeStack}

theorem LineRun.frames {lead tokens : List Token} {more : Bytes}
    (h : LineRun Reading.InScript lead modes tokens more final)
    (hb : ∀ t ∈ tokens, t.isBlank = true) : final.script.frames = modes.script.frames := by
  induction h with
  | nil lead modes more => rfl
  | @cons _ _ r _ _ hr _ ih =>
    have hblank := hb _ List.mem_cons_self
    rw [ih fun t ht => hb t (List.mem_cons_of_mem _ ht)]
    have hstep := hr.step.frames
    generalize r.before.script.frames = fs at hstep
    generalize r.after.script.frames = fs' at hstep
    have hno : ∀ {b : Bool} {P : Prop}, b = true → b = false → P :=
      fun ht hf => absurd (hf.symm.trans ht) Bool.false_ne_true
    cases hstep with
    | passes _ _ _ => rfl
    | opens f _ ho _ _ _ => exact hno hblank (isBlank_of_opensBracket ho)
    | closes hc _ _ _ => exact hno hblank (isBlank_of_closesBracket hc)
    | surplus hc _ => rfl
    | label _ _ _ hv _ _ _ => exact hno hblank hv

theorem InScript.shown (lead : List Token) (more : Bytes) (r : Reading) (h : r.InScript lead more) :
    r.Shown more := h.toShown

theorem LineRun.remembers {lead : List Token} {more : Bytes} {ms : List Mark} {i : Nat}
    (h : LineRun Reading.InScript lead modes (ms.map Mark.token) more final)
    (hlead : lead.all Token.isBlank = false) (hms : ∀ m ∈ ms, m.line = i)
    (hline : ∀ x ∈ shifts i, modes.script.lineOffset = x)
    (hs : List.Forall₂ (Remembers shifts) modes.script.frames opens) :
    List.Forall₂ (Remembers shifts) final.script.frames (ms.foldl bracketStep opens) := by
  induction ms generalizing lead modes opens with
  | nil =>
    cases h
    exact hs
  | cons m ms ih =>
    rw [List.map_cons] at h
    generalize htoken : m.token = t at h
    cases h with
    | @cons _ _ r _ _ hr h =>
      have hkept : r.after.script.lineOffset = r.before.script.lineOffset := by
        apply hr.step.kept
        rw [hlead]
        rfl
      have hmark : m.line = i := hms m List.mem_cons_self
      have hstep : List.Forall₂ (Remembers shifts) r.after.script.frames (bracketStep opens m) :=
        remembers_step (htoken ▸ hr.step) (by rwa [hmark, hkept]) hs
      refine ih h ?_ (fun x hx => hms x (List.mem_cons_of_mem _ hx)) (by rwa [hkept]) hstep
      rw [List.all_append, hlead, Bool.false_and]

private theorem InScript.lineOffset {lead : List Token} {more : Bytes} {r : Reading}
    (h : r.InScript lead more)
    (hlead : ∀ t ∈ lead, t.isBlank = true) (hv : r.token.isBlank = false)
    (hplain : r.before.active.isVerbatim = false)
    (hc : r.token.closesBracket = true → r.before.script.frames ≠ []) :
    r.after.script.lineOffset = r.token.offset := by
  refine h.step.settled ?_ hc
  rw [Token.heads, h.ignore, hplain, hv, List.all_eq_true.2 hlead]
  rfl

theorem LineRun.remembers_line {l : Line} {i k : Nat}
    (h : LineRun Reading.InScript [] modes l.tokens [] final)
    (hshift : shifts i = l.shift?)
    (hs : List.Forall₂ (Remembers shifts) modes.script.frames opens)
    (hdepth : depthAfter? opens.length ((lineMarks i k l).map Mark.token) ≠ none) :
    List.Forall₂ (Remembers shifts) final.script.frames
      ((lineMarks i k l).foldl bracketStep opens) := by
  have hmap := map_token_lineMarks i k l
  have hlines : ∀ m ∈ lineMarks i k l, m.line = i := fun m hm => line_of_mem_lineMarks hm
  cases hms : lineMarks i k l with
  | nil =>
    rw [hms] at hmap
    have hblank : ∀ t ∈ l.tokens, t.isBlank = true := List.dropWhile_eq_nil_iff.1 hmap.symm
    rw [← h.frames hblank] at hs
    exact hs
  | cons m ms =>
    rw [hms, List.map_cons] at hmap hdepth
    rw [hms] at hlines
    have hfirst : l.first? = some m.token := by
      unfold Line.first?
      rw [List.find?_not_eq_head?_dropWhile]
      exact congrArg List.head? hmap.symm
    obtain ⟨lead, rest, r, hsplit, htoken, hlead, hv, hfront, hr, hverbatim, hrest⟩ :=
      h.first InScript.shown hfirst
    obtain rfl : rest = ms.map Mark.token := by
      have hseen : l.seen = m.token :: rest := by
        unfold Line.seen
        rw [hsplit, List.dropWhile_append_of_pos hlead, List.dropWhile_cons_of_neg (by simp [hv])]
      exact (List.cons.inj (hmap.trans hseen)).2.symm
    rw [← hfront.frames hlead] at hs
    have hsurplus : r.token.closesBracket = true → r.before.script.frames ≠ [] := by
      intro hc hnil
      rw [hnil] at hs
      rw [List.forall₂_nil_left_iff.1 hs, ← htoken, depthAfter?_cons] at hdepth
      simp [bracketDepth?, hc, Token.opensBracket_of_closesBracket hc] at hdepth
    have hline : ∀ x ∈ shifts i, r.after.script.lineOffset = x := by
      intro x hx
      rw [hshift, Line.shift?, hfirst] at hx
      split_ifs at hx with hstart
      · exact absurd hx (by simp)
      · obtain rfl : m.token.offset = x := by simpa using hx
        rw [← htoken] at hv ⊢
        exact InScript.lineOffset hr hlead hv (hverbatim.trans (Bool.eq_false_iff.2 hstart)) hsurplus
    have hmark : m.line = i := hlines m List.mem_cons_self
    have hstep : List.Forall₂ (Remembers shifts) r.after.script.frames (bracketStep opens m) :=
      remembers_step (htoken ▸ hr.step) (by rwa [hmark]) hs
    refine hrest.remembers ?_ (fun x hx => hlines x (List.mem_cons_of_mem _ hx)) hline hstep
    rw [List.all_append, List.all_cons, hv, Bool.false_and, Bool.and_false]

theorem LinesRun.remembers {lines : List Line} {i k : Nat}
    (h : LinesRun Reading.InScript modes lines final)
    (hshifts : ∀ (j : Nat) (l : Line), lines[j]? = some l → shifts (i + j) = l.shift?)
    (hs : List.Forall₂ (Remembers shifts) modes.script.frames opens)
    (hdepth : depthAfter? opens.length ((marksFrom i k lines).map Mark.token) ≠ none) :
    List.Forall₂ (Remembers shifts) final.script.frames
      ((marksFrom i k lines).foldl bracketStep opens) := by
  induction h generalizing i k opens with
  | nil modes => exact hs
  | @cons _ _ _ l lines hl _ ih =>
    rw [marksFrom, List.map_append, depthAfter?_append] at hdepth
    rw [marksFrom, List.foldl_append]
    cases hline : depthAfter? opens.length ((lineMarks i k l).map Mark.token) with
    | none =>
      rw [hline] at hdepth
      exact absurd rfl hdepth
    | some depth =>
      rw [hline] at hdepth
      obtain ⟨inner, hinner, hfold⟩ := exists_foldl_bracketStep hline rfl []
      rw [List.append_nil, List.append_nil] at hfold
      have hnext := hl.remembers_line (i := i) (k := k) (hshifts 0 l rfl) hs (by rw [hline]; simp)
      refine ih (fun j x hx => ?_) hnext ?_
      · rw [Nat.add_assoc, Nat.add_comm 1]
        exact hshifts (j + 1) x hx
      · rw [hfold, hinner]
        exact hdepth

end Scan

namespace Scope

theorem exists_first_of_mem_seen {l : Line} {t : Token} (h : t ∈ l.seen) :
    ∃ u, l.first? = some u := by
  unfold Line.first?
  rw [List.find?_not_eq_head?_dropWhile]
  unfold Line.seen at h
  cases hseen : l.tokens.dropWhile Token.isBlank with
  | nil =>
    rw [hseen] at h
    exact absurd h (by simp)
  | cons u rest => exact ⟨u, rfl⟩

end Scope

/-- Lines with visible text and the same level and offset come out behind the same number of
spaces. -/
theorem Line.exists_indent_eq {l l' : Line} (hl : l.ignore = false) (hl' : l'.ignore = false)
    (ht : l.text ≠ []) (ht' : l'.text ≠ []) (hlevel : l.level = l'.level)
    (hoffset : l.offset = l'.offset) (width : Int64) :
    ∃ n, l.indent width = List.replicate n 32 ++ l.text ∧
      l'.indent width = List.replicate n 32 ++ l'.text := by
  have hmargin : l.margin width = l'.margin width := by
    unfold margin
    rw [hlevel, hoffset]
  unfold indent
  rw [hl, hl', if_neg Bool.false_ne_true, if_neg Bool.false_ne_true, List.isEmpty_eq_false_iff.2 ht,
    List.isEmpty_eq_false_iff.2 ht', hmargin]
  by_cases hwidth : width ≤ 0
  · exact ⟨0, if_pos (Or.inr hwidth), if_pos (Or.inr hwidth)⟩
  · refine ⟨l'.margin width, if_neg ?_, if_neg ?_⟩
    · simpa using hwidth
    · simpa using hwidth

namespace Scan
open Scope
variable {settings : Settings} {source : Bytes} {lines above below : List Line} {line : Line}
  {t : Token}

theorem text_ne_nil_of_first
    (h : tokenize settings { active := .script {} } source = .ok (above ++ line :: below))
    (ht : line.first? = some t) : line.text ≠ [] := by
  obtain ⟨final, hrun⟩ := exists_linesRun_script h
  obtain ⟨start, stop, -, hline, -⟩ := hrun.at
  exact hline.text_ne_nil InScript.shown ht

theorem tidy_of_mem_marks (h : tokenize settings { active := .script {} } source = .ok lines)
    {m : Mark} (hm : m ∈ marks lines) : m.token.Tidy := by
  obtain ⟨final, hrun⟩ := exists_linesRun_script h
  refine hrun.steps.tidy _ ?_
  have hseen : m.token ∈ lines.flatMap Line.seen := by
    rw [← map_token_marksFrom 0 0]
    exact List.mem_map_of_mem hm
  obtain ⟨l, hl, ht⟩ := List.mem_flatMap.1 hseen
  exact List.mem_flatMap.2 ⟨l, hl, List.dropWhile_subset _ ht⟩

/-- A closing bracket at the start of a line gets the offset of the line of the innermost bracket. -/
theorem offset_of_closesBracket
    (h : tokenize settings { active := .script {} } source = .ok (above ++ line :: below))
    (ht : line.first? = some t) (hc : t.closesBracket = true)
    (hdepth : depthAfter? 0 ((marks above).map Mark.token) ≠ none) {o : Mark}
    (ho : (openBrackets (marks above)).head? = some o) :
    ∀ x ∈ ((above ++ line :: below)[o.line]?).bind Line.shift?, t.offset = x := by
  obtain ⟨final, hrun⟩ := exists_linesRun_script h
  obtain ⟨start, stop, habove, hline, -⟩ := hrun.at
  have hframes : List.Forall₂ (Remembers fun j => ((above ++ line :: below)[j]?).bind Line.shift?)
      start.script.frames (openBrackets (marks above)) := by
    refine habove.remembers (i := 0) (k := 0) (fun j l hl => ?_) .nil hdepth
    have hlt := (List.getElem?_eq_some_iff.1 hl).1
    rw [Nat.zero_add, List.getElem?_append_left hlt, hl, Option.bind_some]
  obtain ⟨rest, hopens⟩ := List.head?_eq_some_iff.1 ho
  rw [hopens] at hframes
  obtain ⟨lead, _, r, -, rfl, hlead, -, hfront, hr, -, -⟩ := hline.first InScript.shown ht
  rw [← hfront.frames hlead] at hframes
  generalize hfs : r.before.script.frames = fs at hframes
  cases hframes with
  | @cons f _ _ _ hf _ =>
    intro x hx
    rw [hr.step.aligned hc (List.all_eq_true.2 hlead) f (by rw [hfs]; rfl)]
    exact hf x hx

end Scan

/-- A closing bracket at the start of a line puts the line on the level of the line with its partner,
and at the offset of that line. The two lines come out behind the same number of spaces. -/
theorem closing_bracket_aligned {settings : Scan.Settings} {source : Bytes} {lines placed : List Line}
    (hread : tokenize settings { active := .script {} } source = .ok lines)
    (hassign : Scope.assign lines = .ok placed) {i : Nat} {line : Line} {t : Token}
    (hline : lines[i]? = some line) (ht : line.first? = some t) (hc : t.closesBracket = true) :
    ∃ (c o : Scope.Mark) (upper lower : Line), c ∈ Scope.marks lines ∧ c.line = i ∧ c.token = t ∧
      (∀ x ∈ Scope.marks lines, x.line = i → c.place ≤ x.place) ∧
      (∀ o', Scope.Partners (Scope.marks lines) o' c ↔ o' = o) ∧
      placed[o.line]? = some upper ∧ placed[i]? = some lower ∧
      lower.level = upper.level ∧
      (upper.ignore = false → lower.offset = upper.offset ∧
        (lower.ignore = false → ∀ width, ∃ n,
          upper.indent width = List.replicate n 32 ++ upper.text ∧
          lower.indent width = List.replicate n 32 ++ lower.text)) := by
  obtain ⟨above, below, rfl, rfl⟩ : ∃ above below, lines = above ++ line :: below ∧
      above.length = i := by
    obtain ⟨hlt, hget⟩ := List.getElem?_eq_some_iff.1 hline
    refine ⟨lines.take i, lines.drop (i + 1), ?_, List.length_take_of_le (by omega)⟩
    rw [← hget, ← List.drop_eq_getElem_cons hlt, List.take_append_drop]
  have htidy := fun m hm => Scan.tidy_of_mem_marks hread (m := m) hm
  obtain ⟨lower, hlower, hplaced, hstarts⟩ := Scope.starts_of_assign hassign ht
  obtain ⟨back, hmarks⟩ := Scope.exists_marks_split above below ht
  obtain ⟨o, hmem, hopens, hinner, hpartners, hlevel⟩ :=
    Scope.exists_partner hassign htidy ht hc hlower
  obtain ⟨above', line', below', hdoc, hindex, hseen⟩ := Scope.exists_line_of_mem_marksFrom hmem
  rw [Nat.zero_add] at hindex
  obtain ⟨u, hu⟩ := Scope.exists_first_of_mem_seen hseen
  obtain ⟨upper, hupper, hplaced', hstarts'⟩ := Scope.starts_of_assign (hdoc ▸ hassign) hu
  rw [← hindex] at hupper
  have hsame : lower.level = upper.level := by
    rw [hupper] at hlevel
    exact (Option.some.inj hlevel).symm
  refine ⟨Scope.headMark above t, o, upper, lower, ?_, rfl, rfl, ?_, hpartners, hupper, hlower, hsame,
    ?_⟩
  · rw [hmarks]
    simp
  · intro x hx hxline
    rcases Scope.headMark_le hmarks (Scope.sorted_marksFrom 0 0 _) hx hxline with rfl | hlt
    · exact Nat.le_refl _
    · exact Nat.le_of_lt hlt
  · intro hplain
    have hverbatim : line'.startsVerbatim = false := hplaced'.ignore.symm.trans hplain
    have hoffset : lower.offset = upper.offset := by
      rw [hstarts.offset, hstarts'.offset]
      refine Scan.offset_of_closesBracket hread ht hc
        (Scope.depthAfter?_marks hassign htidy) hinner _ ?_
      rw [hdoc, hindex, List.getElem?_append_right (Nat.le_refl _), Nat.sub_self]
      simp [Line.shift?, hverbatim, hu, Scope.headMark]
    refine ⟨hoffset, fun hshown width => ?_⟩
    refine Line.exists_indent_eq hplain hshown ?_ ?_ hsame.symm hoffset.symm width
    · rw [Line.text, hplaced'.raw]
      exact Scan.text_ne_nil_of_first (hdoc ▸ hread) hu
    · rw [Line.text, hplaced.raw]
      exact Scan.text_ne_nil_of_first hread ht

/-- A chain of calls. Its second line is shifted by a tab, and opens two brackets. -/
def chainedLines : List Line :=
  [{ number := 1, tokens := [.numbered 1 (.plain (ascii "a") .script)] },
   { number := 2, tokens := [{ text := ascii ".", kind := .script, offset := 4, line := 2 },
      .numbered 2 (.plain (ascii "b") .script), .numbered 2 (.opening (ascii "(") .script),
      .numbered 2 (.opening (ascii "\x7b") .script)] },
   { number := 3, tokens := [{ Token.closing (ascii "\x7d") .script with offset := 4, line := 3 },
      .numbered 3 (.closing (ascii ")") .script)] }]

theorem closing_bracket_aligned_chain :
    tokenize {} { active := .script {} } (ascii "a\n.b(\x7b\n\x7d)") = .ok chainedLines ∧
      ∃ (placed : List Line) (c o : Scope.Mark) (upper lower : Line),
        Scope.assign chainedLines = .ok placed ∧ c.line = 2 ∧
        Scope.Partners (Scope.marks chainedLines) o c ∧ placed[o.line]? = some upper ∧
        placed[2]? = some lower ∧ lower.level = upper.level ∧
        (upper.ignore = false → lower.offset = upper.offset) := by
  have hread : tokenize {} { active := .script {} } (ascii "a\n.b(\x7b\n\x7d)") =
      .ok chainedLines := by
    decide +kernel
  have hassign : Scope.assign chainedLines = .ok (Scope.pass [] chainedLines).lines := by
    decide +kernel
  obtain ⟨c, o, upper, lower, -, hline, -, -, hpartners, hupper, hlower, hlevel, hshown⟩ :=
    closing_bracket_aligned hread hassign (i := 2)
      (t := { Token.closing (ascii "\x7d") .script with offset := 4, line := 3 }) rfl rfl
      (by decide)
  exact ⟨hread, _, c, o, upper, lower, hassign, hline, (hpartners o).2 rfl, hupper, hlower, hlevel,
    fun hplain => (hshown hplain).1⟩

end Reindent
