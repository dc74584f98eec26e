import Mathlib.Algebra.Group.Nat.Defs
import Mathlib.Data.List.Count
import Reindent.Proofs.Matching.Failures
import Reindent.Proofs.Matching.Halves
import Reindent.Proofs.Reindentation
import Reindent.Proofs.Scan.Partition

/-! What the report about a document that does not nest points at: the last opened scope that
nothing ends, or the first closing token that finds nothing to close. -/
namespace Reindent
open Bytes

namespace Scope

section Ends
variable {ms : List Mark} {stack after : List Mark}

/-- A closing token takes a token off the stack: the one that it closes, or a label inside of it. -/
def Ends (ms : List Mark) (c m : Mark) : Prop :=
  c ∈ ms ∧ c.token.dedents = true ∧ ∃ stack opener rest, Before ms c stack ∧
    Takes Mark.kind c.kind stack opener rest ∧ m ∈ stack ∧ m ∉ rest

/-- The last opened token of all that no token ends. -/
structure LastOpen (ms : List Mark) (m : Mark) : Prop where
  mem : m ∈ ms
  opens : m.token.indents = true
  stays : ∀ c, ¬ Ends ms c m
  last : ∀ x ∈ ms, x.token.indents = true → (∀ c, ¬ Ends ms c x) → x.place ≤ m.place

/-- The first closing token of all that finds nothing to close. -/
structure FirstUnmatched (ms : List Mark) (m : Mark) : Prop where
  mem : m ∈ ms
  dedents : m.token.dedents = true
  unmatched : ∃ stack, Before ms m stack ∧ ∀ opener rest, ¬ Takes Mark.kind m.kind stack opener rest
  first : ∀ x ∈ ms, x.place < m.place → x.token.dedents = true → ∃ opener, Closes ms x opener

theorem mem_onto_iff {m x : Mark} :
    x ∈ m.onto stack ↔ x ∈ stack ∨ (x = m ∧ m.token.indents = true) := by
  unfold Mark.onto
  split_ifs with hi
  · rw [List.mem_cons, or_comm]
    simp [hi]
  · simp [hi]

/-- What is open behind some tokens was open before, or one of them opened it. -/
theorem Reaches.mem (h : Reaches stack ms after) {x : Mark} (hx : x ∈ after) :
    x ∈ stack ∨ (x ∈ ms ∧ x.token.indents = true) := by
  induction h with
  | nil stack => exact Or.inl hx
  | @cons _ _ _ m ms ha _ ih =>
    have hbetween : x ∈ m :: ms ∧ x.token.indents = true ∨ x ∈ _ := (ih hx).symm.imp_left
      fun h => ⟨List.mem_cons_of_mem m h.1, h.2⟩
    rcases hbetween with h | h
    · exact Or.inr h
    · have hsub : ∀ rest : List Mark, x ∈ m.onto rest →
          x ∈ rest ∨ (x ∈ m :: ms ∧ x.token.indents = true) := by
        intro rest hrest
        refine (mem_onto_iff.1 hrest).imp_right fun heq => ?_
        rw [heq.1]
        exact ⟨List.mem_cons_self, heq.2⟩
      cases ha with
      | opens _ => exact hsub _ h
      | closes _ ht => exact (hsub _ h).imp_left fun hrest => ht.sublist.subset hrest

/-- What is open before some tokens stays open, or one of them takes it off the stack. -/
theorem Reaches.mem_or_exists_takes (h : Reaches stack ms after) {x : Mark} (hx : x ∈ stack) :
    x ∈ after ∨ ∃ front c back between opener rest, ms = front ++ c :: back ∧
      Reaches stack front between ∧ c.token.dedents = true ∧
      Takes Mark.kind c.kind between opener rest ∧ x ∈ between ∧ x ∉ rest := by
  induction h with
  | nil stack => exact Or.inl hx
  | @cons stack between after m ms ha _ ih =>
    have hlater : x ∈ between → x ∈ after ∨ ∃ front c back between opener rest,
        m :: ms = front ++ c :: back ∧ Reaches stack front between ∧ c.token.dedents = true ∧
        Takes Mark.kind c.kind between opener rest ∧ x ∈ between ∧ x ∉ rest := by
      intro hbetween
      refine (ih hbetween).imp_right ?_
      rintro ⟨front, c, back, stack', opener, rest, hms, hreaches, hd, htakes, hin, hout⟩
      exact ⟨m :: front, c, back, stack', opener, rest, by rw [hms]; rfl, .cons ha hreaches, hd,
        htakes, hin, hout⟩
    cases ha with
    | opens _ => exact hlater (mem_onto_iff.2 (Or.inl hx))
    | @closes opener rest hd ht =>
      by_cases hrest : x ∈ rest
      · exact hlater (mem_onto_iff.2 (Or.inl hrest))
      · exact Or.inr ⟨[], m, ms, stack, opener, rest, rfl, .nil stack, hd, ht, hx, hrest⟩

variable (hsorted : ms.Pairwise fun a b => a.place < b.place)
include hsorted

private theorem before_of_split {front back : List Mark} {c : Mark} (hms : ms = front ++ c :: back)
    (h : Reaches [] front stack) : Before ms c stack := by
  unfold Before
  rw [hms, filter_place (hms ▸ hsorted)]
  exact h

/-- A token that opens a scope is open at the end, or some token ends it. -/
theorem Reaches.mem_or_ends (h : Reaches [] ms after) {x : Mark} (hx : x ∈ ms)
    (hi : x.token.indents = true) : x ∈ after ∨ ∃ c, Ends ms c x := by
  obtain ⟨front, back, hms⟩ := List.append_of_mem hx
  have hsplit := h
  rw [hms] at hsplit
  obtain ⟨stack, hfront, hback⟩ := hsplit.split
  cases hback with
  | @cons _ between _ _ _ ha hr =>
    have hopened : x ∈ between := by
      cases ha with
      | opens _ => exact mem_onto_iff.2 (Or.inr ⟨rfl, hi⟩)
      | closes _ _ => exact mem_onto_iff.2 (Or.inr ⟨rfl, hi⟩)
    refine (hr.mem_or_exists_takes hopened).imp_right ?_
    rintro ⟨inner, c, later, stack', opener, rest, rfl, hreaches, hd, htakes, hin, hout⟩
    have hprefix : Reaches [] (front ++ x :: inner) stack' := hfront.append (.cons ha hreaches)
    have hall : ms = (front ++ x :: inner) ++ c :: later := by
      rw [hms]
      simp
    refine ⟨c, ?_, hd, stack', opener, rest, before_of_split hsorted hall hprefix, htakes, hin,
      hout⟩
    rw [hall]
    simp

theorem Reaches.not_ends (h : Reaches [] ms after) {m : Mark} (hm : m ∈ after) (c : Mark) :
    ¬ Ends ms c m := by
  rintro ⟨hc, hd, stack, opener, rest, hbefore, htakes, hin, hout⟩
  obtain ⟨front, back, hms⟩ := List.append_of_mem hc
  have hreached : Reaches [] front stack := by
    unfold Before at hbefore
    rwa [hms, filter_place (hms ▸ hsorted)] at hbefore
  have hfront : m ∈ front := by
    rcases hreached.mem hin with hnil | hmem
    · exact absurd hnil (by simp)
    · exact hmem.1
  have hsplit := h
  rw [hms] at hsplit hsorted
  obtain ⟨stack', hfront', hback⟩ := hsplit.split
  have hstack : stack' = stack := hfront'.unique hreached
  rw [hstack] at hback
  have hlater : m ∈ c.onto rest ∨ m ∈ back := by
    cases hback with
    | cons ha hr =>
      have hbetween : Advances stack c (c.onto rest) := .closes hd htakes
      rw [ha.unique hbetween] at hr
      exact (hr.mem hm).imp_right And.left
  -- the token stands in front of the one that ended it, so it is not opened again
  have hplaces := (List.pairwise_append.1 hsorted).2.2 m hfront
  have hne : ∀ x ∈ c :: back, m ≠ x := by
    intro x hx heq
    have hlt := hplaces x hx
    rw [heq] at hlt
    omega
  rcases hlater with honto | hback
  · rcases mem_onto_iff.1 honto with hrest | ⟨heq, -⟩
    · exact hout hrest
    · exact hne c List.mem_cons_self heq
  · exact hne m (List.mem_cons_of_mem c hback) rfl

/-- The innermost of the scopes that are open at the end. -/
theorem Reaches.lastOpen {m : Mark} (h : Reaches [] ms (m :: after)) : LastOpen ms m := by
  have hmem : ∀ x ∈ m :: after, x ∈ ms ∧ x.token.indents = true := by
    intro x hx
    exact (h.mem hx).resolve_left (by simp)
  have hordered : Ordered (m :: after) [] := by
    refine h.ordered_of_sorted ?_
    rwa [List.append_nil]
  refine ⟨(hmem m List.mem_cons_self).1, (hmem m List.mem_cons_self).2,
    h.not_ends hsorted List.mem_cons_self, fun x hx hi hopen => ?_⟩
  have hstays : x ∈ m :: after := by
    rcases h.mem_or_ends hsorted hx hi with hstays | ⟨c, hc⟩
    · exact hstays
    · exact absurd hc (hopen c)
  by_contra hlt
  have heq : x = m := hordered.eq_head hstays (by omega)
  rw [heq] at hlt
  omega

/-- A closing token that finds nothing to close, behind tokens that all found what they close. -/
theorem Reaches.firstUnmatched {front back : List Mark} {m : Mark} (h : Reaches [] front stack)
    (hms : ms = front ++ m :: back) (hd : m.token.dedents = true)
    (hnone : ∀ opener rest, ¬ Takes Mark.kind m.kind stack opener rest) : FirstUnmatched ms m := by
  have hbefore : Before ms m stack := before_of_split hsorted hms h
  refine ⟨by rw [hms]; simp, hd, ⟨stack, hbefore, hnone⟩, fun x hx hlt hxd => ?_⟩
  have hfilter : (front ++ m :: back).filter (·.place < m.place) = front :=
    filter_place (hms ▸ hsorted)
  have hfront : x ∈ front := by
    rw [← hfilter, ← hms]
    exact List.mem_filter.2 ⟨hx, by simpa using hlt⟩
  obtain ⟨inner, later, hsplit⟩ := List.append_of_mem hfront
  rw [hsplit] at h
  obtain ⟨stack', hinner, hrest⟩ := h.split
  have hxs : ms = inner ++ x :: (later ++ m :: back) := by
    rw [hms, hsplit]
    simp
  cases hrest with
  | cons ha _ =>
    cases ha with
    | opens hno => exact absurd (hno.symm.trans hxd) Bool.false_ne_true
    | @closes opener rest _ ht =>
      exact ⟨opener, hx, hxd, stack', rest, before_of_split hsorted hxs hinner, ht⟩

end Ends

section Naming
variable {lines above below : List Line} {line : Line} {before after : List Token} {t : Token}
  {e : ScopeError} {stack : Stack}

theorem FailsAt.seen_eq (h : FailsAt stack lines above line below before t after e) :
    line.seen = before.dropWhile Token.isBlank ++ t :: after := by
  unfold Line.seen
  rw [h.tokens_eq, List.dropWhile_append]
  split_ifs with hnil
  · rw [List.isEmpty_iff] at hnil
    have ht : t.isBlank = false := h.counts.resolve_right (by simp [hnil])
    rw [hnil, List.dropWhile_cons_of_neg (by simp [ht]), List.nil_append]
  · rfl

theorem FailsAt.exists_marks (h : FailsAt stack lines above line below before t after e) :
    ∃ m back, marks lines = marks (upTo above line before) ++ m :: back ∧
      m.line = above.length ∧ m.token = t := by
  have hseen : Line.seen { line with tokens := before } = before.dropWhile Token.isBlank := rfl
  have hline : ∀ i k, ∃ m back, lineMarks i k line =
      lineMarks i k { line with tokens := before } ++ m :: back ∧ m.line = i ∧ m.token = t := by
    intro i k
    unfold lineMarks
    rw [h.seen_eq, hseen, List.zipIdx_append, List.map_append, List.zipIdx_cons, List.map_cons]
    exact ⟨_, _, rfl, rfl, rfl⟩
  obtain ⟨m, back, hmarks, hm, ht⟩ := hline above.length (above.flatMap Line.seen).length
  unfold marks upTo
  rw [h.lines_eq, marksFrom_append, marksFrom_append, marksFrom, marksFrom, marksFrom,
    List.append_nil, Nat.zero_add, Nat.zero_add, hmarks, List.append_assoc]
  exact ⟨m, _, (List.append_assoc _ _ _).symm, hm, ht⟩

theorem FailsAt.firstUnmatched (h : FailsAt [] lines above line below before t after e) :
    ∃ m, m.line = above.length ∧ m.token = t ∧ FirstUnmatched (marks lines) m := by
  obtain ⟨m, back, hmarks, hline, htoken⟩ := h.exists_marks
  obtain ⟨stack, hf⟩ := exists_follows h.reached
  have hnone : ∀ opener rest, ¬ Takes Mark.kind m.kind stack opener rest := by
    intro opener rest htakes
    obtain ⟨opener', rest', htakes', -⟩ :=
      htakes.beside (fun _ _ h => h.kind.symm) hf.stands.flip
    have hkind : m.kind = t.kind := congrArg Token.kind htoken
    rw [hkind] at htakes'
    have hok := h.unmatched
    rw [close_iff.2 htakes'] at hok
    exact absurd hok (by simp)
  refine ⟨m, hline, htoken, ?_⟩
  have hdedents : m.token.dedents = true := by
    rw [htoken]
    exact h.dedents
  exact hf.reaches.firstUnmatched (sorted_marksFrom 0 0 lines) hmarks hdedents hnone

/-- What an error is about: a scope that is never closed is the last one that nothing ends, and
else it is the first closing token that finds nothing to close, with lines above that have no such
token. -/
structure Names (lines : List Line) (e : ScopeError) (m : Mark) : Prop where
  token : e.token = { m.token with level := e.token.level }
  mem : m ∈ marks lines
  opening : (∃ opener, e = .neverClosed opener) → LastOpen (marks lines) m
  closing : (∀ opener, e ≠ .neverClosed opener) → FirstUnmatched (marks lines) m ∧
    ∀ e', assign (lines.take m.line) = .error e' → ∃ opener, e' = .neverClosed opener

theorem FailsAt.exists_names (h : FailsAt [] lines above line below before t after e) :
    ∃ m, Names lines e m := by
  obtain ⟨m, hline, htoken, hfirst⟩ := h.firstUnmatched
  obtain ⟨hname, hnever⟩ := token_of_close h.unmatched
  have habove : lines.take m.line = above := by
    rw [hline, h.lines_eq, List.take_left]
  refine ⟨m, ?_, hfirst.mem, fun ⟨opener, hopener⟩ => absurd hopener (hnever opener), fun _ => ?_⟩
  · rw [hname, htoken]
  · refine ⟨hfirst, fun e' he' => ?_⟩
    rw [habove, assign_eq, h.above_ok] at he'
    split at he'
    · exact absurd ‹none = some _› (by simp)
    · exact ⟨_, (Except.error.inj he').symm⟩
    · exact absurd he' (by simp)

theorem exists_names (h : assign lines = .error e) : ∃ m, Names lines e m := by
  rw [assign_eq] at h
  split at h
  · next e' herror =>
    have he : e' = e := Except.error.inj h
    rw [he] at herror
    obtain ⟨above, line, below, before, t, after, hfails⟩ := exists_failsAt herror
    exact hfails.exists_names
  · next opener rest herror hstack =>
    have he : .neverClosed opener = e := Except.error.inj h
    obtain ⟨stack, hf⟩ := exists_follows herror
    have hstands := hf.stands
    rw [hstack] at hstands
    cases hstands with
    | @cons _ m _ stack hm _ =>
      have hlast : LastOpen (marks lines) m :=
        hf.reaches.lastOpen (sorted_marksFrom 0 0 lines)
      rw [← he]
      exact ⟨m, hm.token, hlast.mem, fun _ => hlast, fun hnever => absurd rfl (hnever opener)⟩
  · exact absurd h (by simp)

end Naming
end Scope

namespace Scan

/-- A token that counts stands in the text of its line and knows the number of that line. -/
theorem located_of_mem_marks {settings : Settings} {modes : ModeStack} {source : Bytes}
    {read : List Line} (h : tokenize settings modes source = .ok read) {m : Scope.Mark}
    (hm : m ∈ Scope.marks read) :
    m.line < source.length ∧ m.token.line = Int64.ofNat (m.line + 1) ∧
      ∃ text, (Bytes.lines source)[m.line]? = some text ∧ m.token.text <:+: text := by
  have hcovers := tokenize_covers h
  have hpartition := hcovers.partition
  obtain ⟨above, line, below, hread, hline, hseen⟩ := Scope.exists_line_of_mem_marksFrom hm
  rw [Nat.zero_add] at hline
  have hmem : line ∈ read := by
    rw [hread]
    simp
  have htoken : m.token ∈ line.tokens := (List.dropWhile_sublist _).subset hseen
  obtain ⟨hne, hnewline, hnumber⟩ := hpartition.token line hmem m.token htoken
  have hat : read[m.line]? = some line := by
    rw [hread, hline]
    simp
  have htext : (Bytes.lines source)[m.line]? = some line.raw := by
    rw [← hcovers.raw, List.getElem?_map, hat]
    rfl
  have hpart : m.token.text <:+: line.raw := by
    unfold Line.raw
    rw [List.flatMap_def]
    exact List.infix_of_mem_flatten (List.mem_map_of_mem htoken)
  refine ⟨?_, ?_, line.raw, htext, hpart⟩
  · -- the text has a newline for every line above, and a byte of the token
    obtain ⟨byte, hbyte⟩ := List.exists_mem_of_ne_nil _ hne
    have hraw : line.raw <:+: source := infix_of_mem_lines (List.mem_of_getElem? htext)
    have hcount : source.count newline < source.length := by
      refine List.count_lt_length_iff.2 ⟨byte, hraw.subset (hpart.subset hbyte), ?_⟩
      intro heq
      exact hnewline (heq ▸ hbyte)
    have hlt := (List.getElem?_eq_some_iff.1 htext).1
    rw [length_lines] at hlt
    omega
  · have hnumbers := congrArg (·[m.line]?) hpartition.number
    have hlt := (List.getElem?_eq_some_iff.1 hat).1
    simp only [List.getElem?_map, hat, List.getElem?_range hlt, Option.map_some] at hnumbers
    rw [hnumber]
    exact Option.some.inj hnumbers

end Scan

namespace Formatter
open Scope

/-- A report is about the tokens of the document, which do not nest. -/
theorem exists_of_structural {f : Formatter} {source : Bytes} {r : Report}
    (h : f.indent source = .error (.error (.structural r))) : ∃ read e,
    tokenize { tabWidth := f.tabWidth, blocks := f.blocks } f.language.start source = .ok read ∧
      assign read = .error e ∧ r = e.report := by
  rw [indent_eq] at h
  split_ifs at h
  · exact absurd h (by simp)
  · split at h
    · exact absurd h (by simp)
    · next read hread =>
      cases hassign : assign read with
      | ok placed =>
        rw [hassign] at h
        exact absurd h (by simp [Except.map])
      | error e =>
        rw [hassign] at h
        have hcause := Failure.error.inj (Except.error.inj h)
        exact ⟨read, e, hread, hassign, (Error.structural.inj hcause).symm⟩

/-- A document that does not nest is reported with the number and a text of one of its lines. The
report is about the last opened scope that nothing ends, or about the first closing token that
finds nothing to close; then no token on the lines above it is at fault. The length of a document
is a number of 64 bits, and so are the numbers of its lines. -/
theorem report_points (f : Formatter) {source : Bytes} {r : Report} (hsize : source.length < 2 ^ 63)
    (h : f.indent source = .error (.error (.structural r))) :
    1 ≤ r.line.toInt ∧ r.line.toInt ≤ (Bytes.lines source).length ∧
    (∃ text, (Bytes.lines source)[r.line.toInt.toNat - 1]? = some text ∧ r.text <:+: text) ∧
    ∃ read m, tokenize { tabWidth := f.tabWidth, blocks := f.blocks } f.language.start source =
        .ok read ∧
      m ∈ marks read ∧ r.text = m.token.text ∧ r.line.toInt = m.line + 1 ∧
      ((r.type = ascii "unmatched_opening" ∧ LastOpen (marks read) m) ∨
        ((r.type = ascii "unmatched_closing" ∨ r.type = ascii "kind_mismatch") ∧
          FirstUnmatched (marks read) m ∧
          ∀ e, assign (read.take m.line) = .error e → ∃ opener, e = .neverClosed opener)) := by
  obtain ⟨read, e, hread, hassign, hr⟩ := exists_of_structural h
  obtain ⟨m, hm⟩ := exists_names hassign
  obtain ⟨hlt, hnumber, text, htext, hpart⟩ := Scan.located_of_mem_marks hread hm.mem
  have hrtext : r.text = m.token.text := by
    have hname := congrArg Token.text hm.token
    rw [hr]
    exact hname
  have hrline : r.line.toInt = m.line + 1 := by
    have hname := congrArg Token.line hm.token
    have hline : r.line = m.token.line := by
      rw [hr]
      exact hname
    rw [hline, hnumber, Int64.toInt_ofNat_of_lt (by omega)]
    omega
  have hindex : r.line.toInt.toNat - 1 = m.line := by omega
  have hcount := (List.getElem?_eq_some_iff.1 htext).1
  refine ⟨by omega, by omega, ⟨text, ?_, ?_⟩, read, m, hread, hm.mem, hrtext, hrline, ?_⟩
  · rw [hindex]
    exact htext
  · rw [hrtext]
    exact hpart
  · rw [hr]
    cases e with
    | neverClosed t => exact Or.inl ⟨rfl, hm.opening ⟨t, rfl⟩⟩
    | closesNothing t => exact Or.inr ⟨Or.inl rfl, hm.closing (by simp)⟩
    | closesNoTemplate t => exact Or.inr ⟨Or.inl rfl, hm.closing (by simp)⟩
    | kindMismatch t opener => exact Or.inr ⟨Or.inr rfl, hm.closing (by simp)⟩

/-- A page with an element that ends inside a block. -/
def brokenPage : Bytes := ascii "<div>\n\x7b% if x %\x7d\n</div>\n\x7b% endif %\x7d"

def brokenReport : Report :=
  { type := ascii "kind_mismatch",
    message := ascii "\"</div>\" cannot close \"\x7b% if x %\x7d\" from line 2",
    line := 3,
    text := ascii "</div>" }

theorem report_points_brokenPage :
    ∃ read m, tokenize { tabWidth := 4 } Language.html.start brokenPage = .ok read ∧ m.line = 2 ∧
      m.token.text = ascii "</div>" ∧ FirstUnmatched (marks read) m := by
  have hreport : ({} : Formatter).indent brokenPage =
      .error (.error (.structural brokenReport)) := by
    decide +kernel
  obtain ⟨-, -, -, read, m, hread, -, htext, hline, hnames⟩ := report_points {} (by decide) hreport
  have hthree : brokenReport.line.toInt = 3 := rfl
  refine ⟨read, m, hread, by omega, htext.symm, ?_⟩
  rcases hnames with ⟨htype, -⟩ | ⟨-, hfirst, -⟩
  · exact absurd htype (by decide)
  · exact hfirst

end Formatter
end Reindent
