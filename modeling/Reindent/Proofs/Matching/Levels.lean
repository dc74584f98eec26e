import Reindent.Proofs.Matching.Marks

/-! The levels of lines by what their first visible tokens close, and else by the innermost scope
around them. -/
namespace Reindent.Scope

namespace Progress

/-- What a token that is not skipped does to the pass. -/
theorem step_cases {p p' : Progress} {t t' : Token} (hv : p.started = true ∨ t.isBlank = false)
    (h : p.step t = .ok (p', t')) :
    (t.dedents = false ∧ p' = ((p.start t (nextLevel p.stack)).push t
      (p.start t (nextLevel p.stack)).level).1) ∨
    (t.dedents = true ∧ ∃ opener rest, Takes Token.kind t.kind p.stack opener rest ∧
      p' = (({ p with stack := rest }.start t opener.level).push t opener.level).1) := by
  cases hd : t.dedents with
  | false =>
    rw [step_of_open hv hd] at h
    exact Or.inl ⟨rfl, (congrArg Prod.fst (Except.ok.inj h)).symm⟩
  | true =>
    cases hc : close p.stack t with
    | error e =>
      rw [step_of_error hv hd hc] at h
      exact absurd h (by simp)
    | ok r =>
      rw [step_of_close hv hd hc] at h
      exact Or.inr ⟨rfl, r.1, r.2, close_iff.1 hc, (congrArg Prod.fst (Except.ok.inj h)).symm⟩

theorem level_walk {p : Progress} (hp : p.started = true) (tokens : List Token) :
    (p.walk tokens).1.level = p.level := by
  induction tokens generalizing p with
  | nil => rfl
  | cons t rest ih =>
    cases hs : p.step t with
    | error e =>
      rw [walk_of_error hs]
    | ok r =>
      rw [walk_of_ok hs]
      rcases step_cases (Or.inl hp) hs with ⟨-, hr⟩ | ⟨-, opener, below, -, hr⟩
      all_goals
        rw [ih (by simp [hr]), hr]
        simp [level_start, hp]

end Progress

/-- What the pass makes of a line is decided by the tokens that count. -/
theorem passLine_seen (stack : Stack) (l : Line) :
    (passLine stack l).1 = (Progress.walk { stack } l.seen).1.stack ∧
      (passLine stack l).2.1.level = (Progress.walk { stack } l.seen).1.level ∧
      (passLine stack l).2.1.offset = (Progress.walk { stack } l.seen).1.offset ∧
      (passLine stack l).2.2 = (Progress.walk { stack } l.seen).2.2 := by
  obtain ⟨hwalk, herror⟩ := Progress.walk_dropWhile stack l.tokens
  unfold Line.seen
  rw [← hwalk, ← herror]
  exact ⟨rfl, rfl, rfl, rfl⟩

section Standing
variable {ms : List Mark} {levels : Nat → Option Int64}

/-- A token on the stack of the pass and its mark. Its level is that of the line with the token that
opened the first scope of its chain. -/
structure Stands (ms : List Mark) (levels : Nat → Option Int64) (t : Token) (m : Mark) : Prop where
  token : t = { m.token with level := t.level }
  level : ∃ first, Origin ms m first ∧ levels first.line = some t.level

theorem Stands.kind {t : Token} {m : Mark} (h : Stands ms levels t m) : t.kind = m.kind := by
  have hkind := congrArg Token.kind h.token
  exact hkind

/-- Where a walk is: the marks behind it are read, and its stack stands for theirs. -/
structure Follows (ms : List Mark) (levels : Nat → Option Int64) (front : List Mark)
    (tokens : Stack) (stack : List Mark) : Prop where
  reaches : Reaches [] front stack
  stands : List.Forall₂ (Stands ms levels) tokens stack

/-- A line that starts with the token of a mark, by its level and offset. -/
structure Starts (ms : List Mark) (levels : Nat → Option Int64) (m : Mark) (level offset : Int64) :
    Prop where
  offset : offset = m.token.offset
  closing : m.token.dedents = true →
    ∃ opener first, Closes ms m opener ∧ Origin ms opener first ∧ levels first.line = some level
  inside : m.token.dedents = false → ∃ stack, Before ms m stack ∧ (stack = [] → level = 0) ∧
    ∀ e ∈ stack, (∀ x ∈ stack, x.place ≤ e.place) →
      ∃ first, Origin ms e first ∧ (levels first.line).map (· + 1) = some level

theorem stands_onto {tokens : Stack} {stack : List Mark} {m : Mark} {level : Int64}
    (hs : List.Forall₂ (Stands ms levels) tokens stack)
    (hm : m.token.indents = true → ∃ first, Origin ms m first ∧ levels first.line = some level) :
    List.Forall₂ (Stands ms levels)
      (if m.token.indents then { m.token with level } :: tokens else tokens) (m.onto stack) := by
  unfold Mark.onto
  split_ifs with hi
  · exact .cons ⟨rfl, hm hi⟩ hs
  · exact hs

variable (hsorted : ms.Pairwise fun a b => a.place < b.place)
include hsorted

theorem Follows.step {front back stack : List Mark} {m : Mark} {p p' : Progress} {t' : Token}
    (hf : Follows ms levels front p.stack stack) (hms : ms = front ++ m :: back)
    (hv : p.started = true ∨ m.token.isBlank = false) (h : p.step m.token = .ok (p', t'))
    (hlevel : levels m.line = some p'.level) :
    ∃ stack', Follows ms levels (front ++ [m]) p'.stack stack' ∧ p'.started = true ∧
      (p.started = true → p'.level = p.level ∧ p'.offset = p.offset) ∧
      (p.started = false → Starts ms levels m p'.level p'.offset) := by
  have hbefore : Before ms m stack := by
    unfold Before
    rw [hms, filter_place (hms ▸ hsorted)]
    exact hf.reaches
  rcases Progress.step_cases hv h with ⟨hd, rfl⟩ | ⟨hd, opener, rest, htakes, rfl⟩
  · refine ⟨m.onto stack, ⟨hf.reaches.append (.cons (.opens hd) (.nil _)), ?_⟩, by simp, ?_, ?_⟩
    · rw [Progress.stack_push, Progress.stack_start]
      refine stands_onto hf.stands fun hi => ⟨m, .opening hi hd, ?_⟩
      rw [hlevel, Progress.level_push]
    · intro hp
      simp [Progress.level_start, Progress.offset_start, hp]
    · intro hp
      rw [Progress.level_push, Progress.offset_push, Progress.level_start, Progress.offset_start, hp,
        if_neg Bool.false_ne_true, if_neg Bool.false_ne_true]
      refine ⟨rfl, fun hd' => absurd (hd.symm.trans hd') Bool.false_ne_true, fun _ => ?_⟩
      refine ⟨stack, hbefore, ?_, ?_⟩
      · rintro rfl
        rw [List.forall₂_nil_right_iff.1 hf.stands]
        rfl
      · intro e he hlast
        have hordered : Ordered stack (m :: back) := hf.reaches.ordered_of_sorted (hms ▸ hsorted)
        obtain ⟨tokens, hstack⟩ : ∃ tokens, p.stack = tokens := ⟨_, rfl⟩
        have hstands := hf.stands
        rw [hstack] at hstands ⊢
        cases hstands with
        | nil => exact absurd he (by simp)
        | @cons t top _ _ htop _ =>
          obtain rfl := hordered.eq_head he (hlast top List.mem_cons_self)
          obtain ⟨first, hfirst, hopen⟩ := htop.level
          exact ⟨first, hfirst, by rw [hopen]; rfl⟩
  · obtain ⟨opener', rest', htakes', hopener, hrest⟩ :=
      htakes.beside (fun _ _ hs => hs.kind) hf.stands
    obtain ⟨first, hfirst, hopen⟩ := hopener.level
    have hcloses : Closes ms m opener' := by
      refine ⟨?_, hd, stack, rest', hbefore, htakes'⟩
      rw [hms]
      exact List.mem_append_right _ List.mem_cons_self
    refine ⟨m.onto rest', ⟨hf.reaches.append (.cons (.closes hd htakes') (.nil _)), ?_⟩, by simp,
      ?_, ?_⟩
    · rw [Progress.stack_push, Progress.stack_start]
      exact stands_onto hrest fun hi => ⟨first, .reopening hi hcloses hfirst, hopen⟩
    · intro hp
      simp [Progress.level_start, Progress.offset_start, hp]
    · intro hp
      rw [Progress.level_push, Progress.offset_push, Progress.level_start, Progress.offset_start]
      dsimp only
      rw [hp, if_neg Bool.false_ne_true, if_neg Bool.false_ne_true]
      exact ⟨rfl, fun _ => ⟨opener', first, hcloses, hfirst, hopen⟩,
        fun hd' => absurd (hd'.symm.trans hd) Bool.false_ne_true⟩

theorem Follows.walk {front line back stack : List Mark} {p : Progress}
    (hf : Follows ms levels front p.stack stack) (hms : ms = front ++ (line ++ back))
    (hp : p.started = true) (hlevel : ∀ m ∈ line, levels m.line = some p.level)
    (h : (p.walk (line.map Mark.token)).2.2 = none) :
    ∃ stack', Follows ms levels (front ++ line) (p.walk (line.map Mark.token)).1.stack stack' ∧
      (p.walk (line.map Mark.token)).1.offset = p.offset := by
  induction line generalizing front stack p with
  | nil => exact ⟨stack, by rw [List.append_nil]; exact hf, rfl⟩
  | cons m line ih =>
    rw [List.map_cons] at h ⊢
    cases hs : p.step m.token with
    | error e =>
      rw [Progress.walk_of_error hs] at h
      exact absurd h (by simp)
    | ok r =>
      rw [Progress.walk_of_ok hs] at h ⊢
      have hsame : r.1.level = p.level := by
        rcases Progress.step_cases (Or.inl hp) hs with ⟨-, hr⟩ | ⟨-, _, _, -, hr⟩
        all_goals simp [hr, Progress.level_start, hp]
      have hline : levels m.line = some r.1.level := by
        rw [hsame]
        exact hlevel m List.mem_cons_self
      obtain ⟨stack₁, hf₁, hstarted, hkept, -⟩ :=
        hf.step hsorted hms (Or.inl hp) hs hline
      obtain ⟨stack₂, hf₂, hoffset₂⟩ := ih hf₁ (by rw [hms]; simp) hstarted
        (fun x hx => by rw [hsame]; exact hlevel x (List.mem_cons_of_mem _ hx)) h
      refine ⟨stack₂, ?_, hoffset₂.trans (hkept hp).2⟩
      rw [List.append_assoc] at hf₂
      exact hf₂

theorem Follows.passLine {front back stack : List Mark} {tokens : Stack} {i k : Nat} {l : Line}
    (hf : Follows ms levels front tokens stack) (hms : ms = front ++ (lineMarks i k l ++ back))
    (hlevel : levels i = some (Scope.passLine tokens l).2.1.level)
    (h : (Scope.passLine tokens l).2.2 = none) :
    ∃ stack', Follows ms levels (front ++ lineMarks i k l) (Scope.passLine tokens l).1 stack' ∧
      ∀ m ∈ (lineMarks i k l).head?, Starts ms levels m (Scope.passLine tokens l).2.1.level
        (Scope.passLine tokens l).2.1.offset := by
  obtain ⟨hstack, hline, hoffset, herror⟩ := passLine_seen tokens l
  have hmap := map_token_lineMarks i k l
  have hi : ∀ m ∈ lineMarks i k l, m.line = i := fun m hm => line_of_mem_lineMarks hm
  rw [hstack, hline, hoffset]
  rw [hline] at hlevel
  rw [herror] at h
  rw [← hmap] at hlevel h ⊢
  cases hm : lineMarks i k l with
  | nil =>
    refine ⟨stack, ?_, by simp⟩
    rw [List.append_nil]
    exact hf
  | cons m rest =>
    rw [hm] at hms hlevel h hi hmap
    have hv : m.token.isBlank = false := Progress.isBlank_of_dropWhile hmap.symm
    rw [List.map_cons] at hlevel h ⊢
    cases hs : Progress.step { stack := tokens } m.token with
    | error e =>
      rw [Progress.walk_of_error hs] at h
      exact absurd h (by simp)
    | ok r =>
      rw [Progress.walk_of_ok hs] at hlevel h ⊢
      dsimp only at hlevel h ⊢
      have hstarted : r.1.started = true := by
        rcases Progress.step_cases (Or.inr hv) hs with ⟨-, hr⟩ | ⟨-, _, _, -, hr⟩
        all_goals simp [hr]
      have hkept := Progress.level_walk hstarted (rest.map Mark.token)
      rw [hkept] at hlevel
      obtain ⟨stack₁, hf₁, -, -, hstarts⟩ := hf.step (p := { stack := tokens }) hsorted hms
        (Or.inr hv) hs (by rw [hi m List.mem_cons_self, hlevel])
      have hms' : ms = front ++ [m] ++ (rest ++ back) := by rw [hms]; simp
      obtain ⟨stack₂, hf₂, hoffset₂⟩ := hf₁.walk hsorted hms' hstarted
        (fun x hx => by rw [hi x (List.mem_cons_of_mem _ hx), hlevel]) h
      refine ⟨stack₂, ?_, ?_⟩
      · rw [List.append_assoc] at hf₂
        exact hf₂
      · intro x hx
        obtain rfl : m = x := by simpa using hx
        rw [hkept, hoffset₂]
        exact hstarts rfl

theorem Follows.passLines {front back stack : List Mark} {tokens : Stack} {i k : Nat}
    {lines : List Line} (hf : Follows ms levels front tokens stack)
    (hms : ms = front ++ (marksFrom i k lines ++ back))
    (hlevels : ∀ j, levels (i + j) = (Scope.passLines tokens lines).lines[j]?.map Line.level)
    (h : (Scope.passLines tokens lines).error? = none) :
    (∃ stack', Follows ms levels (front ++ marksFrom i k lines) (Scope.passLines tokens lines).stack
      stack') ∧
    ∀ j (l : Line) t, lines[j]? = some l → l.first? = some t → ∃ (l' : Line) (m : Mark),
      (Scope.passLines tokens lines).lines[j]? = some l' ∧ m ∈ marksFrom i k lines ∧
      m.line = i + j ∧ m.token = t ∧
      (∀ x ∈ marksFrom i k lines, x.line = i + j → m.place ≤ x.place) ∧
      Starts ms levels m l'.level l'.offset := by
  induction lines generalizing front stack tokens i k with
  | nil =>
    refine ⟨⟨stack, ?_⟩, by simp⟩
    rw [marksFrom, List.append_nil]
    exact hf
  | cons line rest ih =>
    cases herror : (Scope.passLine tokens line).2.2 with
    | some e =>
      rw [passLines_of_error herror] at h
      exact absurd h (by simp)
    | none =>
      rw [passLines_of_ok herror] at hlevels h ⊢
      rw [marksFrom, List.append_assoc] at hms
      obtain ⟨stack₁, hf₁, hstarts⟩ := hf.passLine hsorted hms (hlevels 0) herror
      have hms₁ : ms = front ++ lineMarks i k line ++
          (marksFrom (i + 1) (k + line.seen.length) rest ++ back) := by
        rw [hms, List.append_assoc]
      have hlevels₁ : ∀ j, levels (i + 1 + j) =
          (Scope.passLines (Scope.passLine tokens line).1 rest).lines[j]?.map Line.level := by
        intro j
        rw [Nat.add_assoc, Nat.add_comm 1]
        exact hlevels (j + 1)
      obtain ⟨⟨stack₂, hf₂⟩, hrest⟩ := ih hf₁ hms₁ hlevels₁ h
      refine ⟨⟨stack₂, ?_⟩, ?_⟩
      · rw [marksFrom, ← List.append_assoc]
        exact hf₂
      · intro j l t hl ht
        cases j with
        | zero =>
          obtain rfl := Option.some.inj hl
          have hhead := head?_lineMarks i k ht
          refine ⟨_, ⟨i, k, t⟩, rfl, ?_, rfl, rfl, ?_, hstarts _ hhead⟩
          · exact List.mem_append_left _ (List.mem_of_head? hhead)
          · intro x hx _
            exact (place_of_mem_marksFrom hx).2
        | succ j =>
          obtain ⟨l', m, hl', hm, hline, htoken, hfirst, hstart⟩ := hrest j l t hl ht
          refine ⟨l', m, hl', List.mem_append_right _ hm, by omega, htoken, ?_, hstart⟩
          intro x hx hxline
          rcases List.mem_append.1 hx with hx | hx
          · have hi := line_of_mem_lineMarks hx
            omega
          · exact hfirst x hx (by omega)

end Standing

/-- A pass over the lines of a document that finds no error follows all of its marks. -/
theorem exists_follows {lines : List Line} (h : (passLines [] lines).error? = none) :
    ∃ stack, Follows (marks lines) (fun j => (passLines [] lines).lines[j]?.map Line.level)
      (marks lines) (passLines [] lines).stack stack := by
  have hf : Follows (marks lines) (fun j => (passLines [] lines).lines[j]?.map Line.level) []
      [] [] := ⟨.nil [], .nil⟩
  have hms : marks lines = [] ++ (marksFrom 0 0 lines ++ []) := by
    rw [List.append_nil]
    rfl
  exact (hf.passLines (sorted_marksFrom 0 0 lines) hms (fun j => by rw [Nat.zero_add]) h).1

/-- The level and the offset of every line with a visible token follow from its first one. A closing
token puts the line on the level of the line where the chain of scopes that it closes was opened. Any
other puts it one level deeper than the line where the chain of the innermost scope was opened, and
on level zero outside all scopes. -/
theorem levels_of_assign {lines placed : List Line} (h : assign lines = .ok placed) {i : Nat}
    {line : Line} {t : Token} (hline : lines[i]? = some line) (ht : line.first? = some t) :
    ∃ (line' : Line) (m : Mark), placed[i]? = some line' ∧ m ∈ marks lines ∧ m.line = i ∧
      m.token = t ∧ (∀ x ∈ marks lines, x.line = i → m.place ≤ x.place) ∧
      line'.offset = t.offset ∧
      (t.dedents = true → ∃ opener first, Closes (marks lines) m opener ∧
        Origin (marks lines) opener first ∧
        placed[first.line]?.map Line.level = some line'.level) ∧
      (t.dedents = false → ∃ stack, Before (marks lines) m stack ∧
        (stack = [] → line'.level = 0) ∧
        ∀ e ∈ stack, (∀ x ∈ stack, x.place ≤ e.place) → ∃ first, Origin (marks lines) e first ∧
          placed[first.line]?.map (·.level + 1) = some line'.level) := by
  have hsorted := sorted_marksFrom 0 0 lines
  rw [assign_eq] at h
  split at h
  · exact absurd h (by simp)
  · exact absurd h (by simp)
  · next herror _ =>
    obtain rfl := Except.ok.inj h
    have hf : Follows (marks lines) (fun j => (passLines [] lines).lines[j]?.map Line.level) [] []
        [] := ⟨.nil [], .nil⟩
    have hms : marks lines = [] ++ (marksFrom 0 0 lines ++ []) := by
      rw [List.append_nil]
      rfl
    obtain ⟨-, hlines⟩ := hf.passLines hsorted hms (fun j => by rw [Nat.zero_add]) herror
    obtain ⟨line', m, hline', hm, hi, htoken, hfirst, hstart⟩ := hlines i line t hline ht
    rw [Nat.zero_add] at hi hfirst
    subst htoken
    refine ⟨line', m, hline', hm, hi, rfl, hfirst, hstart.offset, hstart.closing, ?_⟩
    intro hd
    obtain ⟨stack, hbefore, hnil, hopen⟩ := hstart.inside hd
    refine ⟨stack, hbefore, hnil, fun e he hlast => ?_⟩
    obtain ⟨first, horigin, hlevel⟩ := hopen e he hlast
    rw [Option.map_map] at hlevel
    exact ⟨first, horigin, hlevel⟩

/-- A chain of two template blocks with a line inside each. -/
def chainLines : List Line :=
  [[.opening (Bytes.ascii "if") .template], [.plain (Bytes.ascii "a") .text],
    [.reopening (Bytes.ascii "else") .template], [.plain (Bytes.ascii "b") .text],
    [.closing (Bytes.ascii "end") .template]].map fun tokens => { number := 1, tokens }

private theorem assign_chainLines : assign chainLines = .ok (pass [] chainLines).lines := by
  rfl

theorem levels_of_assign_chain :
    ∃ (line' : Line) (m opener first : Mark), (pass [] chainLines).lines[4]? = some line' ∧
      Closes (marks chainLines) m opener ∧ Origin (marks chainLines) opener first ∧
      (pass [] chainLines).lines[first.line]?.map Line.level = some line'.level := by
  obtain ⟨line', m, hline', -, -, -, -, -, hclosing, -⟩ := levels_of_assign assign_chainLines
    (i := 4) (t := .closing (Bytes.ascii "end") .template) rfl rfl
  obtain ⟨opener, first, hcloses, horigin, hlevel⟩ := hclosing rfl
  exact ⟨line', m, opener, first, hline', hcloses, horigin, hlevel⟩

end Reindent.Scope
