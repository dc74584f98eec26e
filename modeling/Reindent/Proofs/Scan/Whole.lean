import Reindent.Proofs.Rules
import Reindent.Proofs.Scan.Lossless

/-! Reading a document in one pass over all of its text, with the newline as one more lexeme. This
is the same as reading it line by line. -/
namespace Reindent.Scan

theorem readGap_rest (settings : Settings) (state : State) (line : Line) (text rest rest' : Bytes) :
    readGap settings state line text rest = readGap settings state line text rest' := by
  unfold readGap Mode.readText Mode.settle
  cases state.modes.active <;> rfl

namespace Whole

/-- The lexemes of a mode, and in front of them the end of a line, which has no label. -/
def rules (mode : Mode) (embedded : Bool) : List (Option Lexeme × Pattern) :=
  (none, .byte Bytes.newline) :: (mode.rules embedded).map fun r => (some r.1, r.2)

inductive Step where
  | finished (state : State) (line : Line)
  | failed (state : State) (overrun : Overrun)
  | lineEnd (state : State) (line : Line) (rest : Bytes)
  | next (state : State) (line : Line) (rest : Bytes)

def step (settings : Settings) (state : State) (line : Line) (rest : Bytes) : Step :=
  match Pattern.search (rules state.modes.active state.modes.embedded) none rest with
  | none =>
    let (line, state) := readGap settings state line rest []
    .finished state line
  | some hit =>
    let (line, state) := readGap settings state line hit.skipped (hit.matched ++ hit.rest)
    match hit.label with
    | none => .lineEnd state line hit.rest
    | some lexeme =>
      match state.modes.active.extent state.modes.embedded lexeme hit.matched with
      | .error overrun => .failed state overrun
      | .ok n =>
        let after := hit.matched.drop n ++ hit.rest
        let (t, state) := readLexeme settings [] state ⟨settings.tabWidth, line, after⟩ lexeme
          (hit.matched.take n)
        .next state (line.append t) after

def Step.Leaves (s : Step) (after : Bytes) : Prop :=
  ∃ state line, s = .next state line after ∨ s = .lineEnd state line after

/-- Every step but the last one takes at least one byte, and takes it from the front. -/
theorem exists_taken_of_step {settings : Settings} {state : State} {line : Line}
    {rest after : Bytes} (h : (step settings state line rest).Leaves after) :
    ∃ taken, taken ≠ [] ∧ rest = taken ++ after := by
  obtain ⟨state', line', h⟩ := h
  unfold step at h
  split at h
  · simp at h
  · next hit hs =>
    obtain ⟨hm, hr⟩ := Pattern.search_split hs
    dsimp only at h
    split at h
    · simp only [reduceCtorEq, Step.lineEnd.injEq, false_or] at h
      obtain ⟨-, -, rfl⟩ := h
      exact ⟨hit.skipped ++ hit.matched, by simp [hm], hr.symm⟩
    · split at h
      · simp at h
      · next n he =>
        have hn := Mode.extent_pos hm he
        simp only [Step.next.injEq, reduceCtorEq, or_false] at h
        obtain ⟨-, -, rfl⟩ := h
        refine ⟨hit.skipped ++ hit.matched.take n, ?_, ?_⟩
        · rw [ne_eq, List.append_eq_nil_iff, List.take_eq_nil_iff, not_and_or, not_or]
          exact Or.inr ⟨by omega, hm⟩
        · rw [← hr, List.append_assoc, List.append_assoc, ← List.append_assoc (hit.matched.take n),
            List.take_append_drop]

theorem length_lt_of_leaves {settings : Settings} {state : State} {line : Line}
    {rest after : Bytes} (h : (step settings state line rest).Leaves after) :
    after.length < rest.length := by
  obtain ⟨taken, hne, rfl⟩ := exists_taken_of_step h
  have hl := List.length_pos_iff.2 hne
  rw [List.length_append]
  omega

/-- Reads the rest of a document, starting in the middle of a line. -/
def run (settings : Settings) (state : State) (line : Line) (rest : Bytes) :
    State × Except Overrun (List Line) :=
  match h : step settings state line rest with
  | .finished state line => (state, .ok [line])
  | .failed state overrun => (state, .error overrun)
  | .lineEnd state line rest' =>
    have : rest'.length < rest.length := length_lt_of_leaves ⟨_, _, Or.inr h⟩
    match run settings state line.next rest' with
    | (state, .error overrun) => (state, .error overrun)
    | (state, .ok lines) => (state, .ok (line :: lines))
  | .next state line rest' =>
    have : rest'.length < rest.length := length_lt_of_leaves ⟨_, _, Or.inl h⟩
    run settings state line rest'
termination_by rest.length

section Equations
variable {settings : Settings} {state state' : State} {line line' : Line} {rest rest' : Bytes}

theorem run_of_finished (h : step settings state line rest = .finished state' line') :
    run settings state line rest = (state', .ok [line']) := by
  rw [run]
  split <;> simp_all

theorem run_of_failed {overrun : Overrun}
    (h : step settings state line rest = .failed state' overrun) :
    run settings state line rest = (state', .error overrun) := by
  rw [run]
  split <;> simp_all

theorem run_of_lineEnd (h : step settings state line rest = .lineEnd state' line' rest') :
    run settings state line rest =
      match run settings state' line'.next rest' with
      | (state, .error overrun) => (state, .error overrun)
      | (state, .ok lines) => (state, .ok (line' :: lines)) := by
  nth_rewrite 1 [run]
  split <;> simp_all

theorem run_of_next (h : step settings state line rest = .next state' line' rest') :
    run settings state line rest = run settings state' line' rest' := by
  nth_rewrite 1 [run]
  split <;> simp_all

end Equations

def relabel (h : Pattern.Hit Lexeme) : Pattern.Hit (Option Lexeme) :=
  ⟨h.skipped, some h.label, h.matched, h.rest⟩

private theorem pick?_rules (mode : Mode) (embedded : Bool) (before : Option UInt8) {b : UInt8}
    (rest : Bytes) (hb : b ≠ Bytes.newline) :
    Pattern.pick? (rules mode embedded) before (b :: rest) =
      (Pattern.pick? (mode.rules embedded) before (b :: rest)).map fun r => (some r.1, r.2) := by
  have hn : (Pattern.byte Bytes.newline).match? before (b :: rest) = none := by
    apply Pattern.match?_eq_none_of_mayStart
    simpa [Pattern.byte, Pattern.mayStart] using hb
  unfold Pattern.pick? rules
  rw [List.findSome?_cons, hn]
  dsimp only [Option.map_none]
  induction mode.rules embedded with
  | nil => rfl
  | cons r rs ih =>
    rw [List.map_cons, List.findSome?_cons, List.findSome?_cons]
    cases r.2.match? before (b :: rest) with
    | none => exact ih
    | some e => rfl

/-- What follows a line: nothing, or a newline and the lines below. -/
def Below (below : Bytes) : Prop := ∀ b ∈ below.head?, b = Bytes.newline

/-- In a whole document, the next lexeme is that of the line, or else the end of the line. -/
theorem search_rules {mode : Mode} {embedded : Bool} {x below : Bytes}
    (hx : Bytes.newline ∉ x) (hb : Below below) (before : Option UInt8) :
    Pattern.search (rules mode embedded) before (x ++ below) =
      match Pattern.search (mode.rules embedded) before x with
      | some hit => some (relabel (hit.extend below))
      | none => match below with
        | [] => none
        | _ :: rest => some ⟨x, none, [Bytes.newline], rest⟩ := by
  induction x generalizing before with
  | nil =>
    cases below with
    | nil => rfl
    | cons b rest =>
      obtain rfl := hb b rfl
      have hp : Pattern.pick? (rules mode embedded) before (Bytes.newline :: rest) =
          some (none, ⟨[Bytes.newline], rest⟩) := rfl
      exact Pattern.search_cons_of_some hp
  | cons b x ih =>
    rw [List.mem_cons, not_or] at hx
    have hp := pick?_rules mode embedded before (x ++ below) (Ne.symm hx.1)
    have ha := Pattern.pick?_append (mode.ignores_below embedded hb) before (b :: x)
    rw [List.cons_append] at ha
    rw [ha] at hp
    cases hpick : Pattern.pick? (mode.rules embedded) before (b :: x) with
    | some r =>
      obtain ⟨label, e⟩ := r
      rw [hpick] at hp
      rw [List.cons_append, Pattern.search_cons_of_some hp, Pattern.search_cons_of_some hpick]
      rfl
    | none =>
      rw [hpick] at hp
      rw [List.cons_append, Pattern.search_cons_of_none hp, Pattern.search_cons_of_none hpick,
        ih hx.2]
      cases Pattern.search (mode.rules embedded) (some b) x with
      | some hit => rfl
      | none =>
        cases below with
        | nil => rfl
        | cons c rest => rfl

private theorem takeWhile_isGap (rest below : Bytes) :
    (rest ++ Bytes.newline :: below).takeWhile Bytes.isGap = rest.takeWhile Bytes.isGap ∧
    (rest ++ Bytes.newline :: below).dropWhile Bytes.isGap =
      rest.dropWhile Bytes.isGap ++ Bytes.newline :: below := by
  induction rest with
  | nil => exact ⟨rfl, rfl⟩
  | cons b rest ih =>
    rw [List.cons_append, List.takeWhile_cons, List.takeWhile_cons, List.dropWhile_cons,
      List.dropWhile_cons]
    split_ifs
    · rw [ih.1, ih.2]
      exact ⟨rfl, rfl⟩
    · exact ⟨rfl, rfl⟩

theorem attributeGap?_append {below : Bytes} (hb : Below below) (rest : Bytes) :
    Markup.attributeGap? (rest ++ below) = Markup.attributeGap? rest := by
  cases below with
  | nil => rw [List.append_nil]
  | cons b below =>
    obtain rfl := hb b rfl
    obtain ⟨htake, hdrop⟩ := takeWhile_isGap rest below
    unfold Markup.attributeGap?
    dsimp only
    rw [htake, hdrop]
    split_ifs
    · rfl
    · -- the newline answers like the end of the line, and a slash in front of either counts
      rcases rest.dropWhile Bytes.isGap with _ | ⟨c, _ | ⟨d, tail⟩⟩
      · rfl
      · rw [List.cons_append, List.nil_append]
        grind [Bytes.newline]
      · rw [List.cons_append, List.cons_append]
        split <;> simp_all

private theorem settle_rest (mode : Mode) (width : Int64) (line : Line) (rest rest' : Bytes)
    (t : Token) : mode.settle ⟨width, line, rest⟩ t = mode.settle ⟨width, line, rest'⟩ t := by
  cases mode <;> rfl

private theorem read_append {below : Bytes} (hb : Below below) (mode : Mode) (width : Int64)
    (line : Line) (rest : Bytes) (lexeme : Lexeme) (text : Bytes) :
    mode.read ⟨width, line, rest ++ below⟩ lexeme text = mode.read ⟨width, line, rest⟩ lexeme text := by
  cases mode with
  | markup =>
    have ho : Markup.openTag ⟨width, line, rest ++ below⟩ text =
        Markup.openTag ⟨width, line, rest⟩ text := by
      unfold Markup.openTag
      rw [attributeGap?_append hb]
    simp only [Mode.read, Markup.read, ho]
  | _ => rfl

private theorem readLexeme_append (settings : Settings) {below : Bytes} (hb : Below below)
    (state : State) (line : Line) (rest : Bytes) (lexeme : Lexeme) (text : Bytes) :
    readLexeme settings [] state ⟨settings.tabWidth, line, rest ++ below⟩ lexeme text =
      readLexeme settings below state ⟨settings.tabWidth, line, rest⟩ lexeme text := by
  unfold readLexeme
  dsimp only
  rw [List.append_nil, settle_rest _ _ _ (rest ++ below) rest, read_append hb]

/-- At the end of a line the document ends too, or a newline follows. -/
private def lineEnd (state : State) (line : Line) : Bytes → Step
  | [] => .finished state line
  | _ :: rest => .lineEnd state line rest

/-- A step in the whole document is one in the line. -/
private theorem step_append (settings : Settings) {x below : Bytes} (hx : Bytes.newline ∉ x)
    (hb : Below below) (state : State) (line : Line) :
    step settings state line (x ++ below) =
      match Scan.step settings below state line x with
      | .finished state line => lineEnd state line below
      | .failed state overrun => .failed state overrun
      | .next state line rest => .next state line (rest ++ below) := by
  unfold step Scan.step
  rw [search_rules hx hb]
  cases Pattern.search (state.modes.active.rules state.modes.embedded) none x with
  | none =>
    cases below with
    | nil => simp only [List.append_nil, lineEnd]
    | cons b rest => simp only [readGap_rest settings state line x _ [], lineEnd]
  | some hit =>
    simp only [relabel, Pattern.Hit.extend]
    rw [readGap_rest settings state line hit.skipped _ (hit.matched ++ hit.rest)]
    generalize readGap settings state line hit.skipped (hit.matched ++ hit.rest) = gap
    cases gap.2.modes.active.extent gap.2.modes.embedded hit.label hit.matched with
    | error overrun => rfl
    | ok n =>
      dsimp only
      rw [← List.append_assoc, readLexeme_append settings hb]

private theorem newline_notMem_of_step {settings : Settings} {below x rest : Bytes}
    {state state' : State} {line line' : Line} (hx : Bytes.newline ∉ x)
    (h : Scan.step settings below state line x = .next state' line' rest) :
    Bytes.newline ∉ rest := by
  obtain ⟨w, -, rfl⟩ := step_grows h
  exact fun hr => hx (List.mem_append_right w hr)

/-- The run after a line that ends in front of `below`. -/
private def goOn (settings : Settings) (state : State) (line : Line) :
    Bytes → State × Except Overrun (List Line)
  | [] => (state, .ok [line])
  | _ :: rest =>
    match run settings state line.next rest with
    | (state, .error overrun) => (state, .error overrun)
    | (state, .ok lines) => (state, .ok (line :: lines))

private theorem run_append (settings : Settings) {x below : Bytes} (hx : Bytes.newline ∉ x)
    (hb : Below below) (state : State) (line : Line) :
    run settings state line (x ++ below) =
      match readLine settings below state line x with
      | (state, .error overrun) => (state, .error overrun)
      | (state, .ok line) => goOn settings state line below := by
  induction hn : x.length using Nat.strongRecOn generalizing x state line with
  | _ n ih =>
    have hstep := step_append settings hx hb state line
    cases hs : Scan.step settings below state line x with
    | finished state' line' =>
      rw [hs] at hstep
      rw [readLine_of_finished hs]
      cases below with
      | nil => exact run_of_finished hstep
      | cons b rest => exact run_of_lineEnd hstep
    | failed state' overrun =>
      rw [hs] at hstep
      rw [readLine_of_failed hs]
      exact run_of_failed hstep
    | next state' line' rest' =>
      rw [hs] at hstep
      have hlt := Scan.length_lt_of_step hs
      rw [readLine_of_next hs, run_of_next hstep]
      exact ih rest'.length (by omega) (newline_notMem_of_step hx hs) state' line' rfl

/-- Reading in one pass is reading line by line. -/
theorem run_eq_readLines (settings : Settings) (state : State) (number : Int64) (source : Bytes) :
    run settings state { number } source = readLines settings state number (linesBelow source) := by
  induction source using Bytes.lines_induction generalizing state number with
  | single l hl =>
    have hb : Below [] := by simp [Below]
    have h := run_append settings hl hb state { number }
    rw [List.append_nil] at h
    rw [h, linesBelow_of_notMem hl, readLines_cons]
    obtain ⟨state', result⟩ := readLine settings [] state { number } l
    cases result with
    | error overrun => rfl
    | ok line => rfl
  | more l rest hl ih =>
    have hb : Below (Bytes.newline :: rest) := by simp [Below]
    have h := run_append settings hl hb state { number }
    rw [h, linesBelow_append_newline hl, readLines_cons]
    obtain ⟨⟨state', result⟩, he⟩ : ∃ read,
        readLine settings (Bytes.newline :: rest) state { number } l = read := ⟨_, rfl⟩
    rw [he]
    cases result with
    | error overrun => rfl
    | ok line =>
      have hnumber := (readLine_grows he).number
      have hnext : line.next = { number := number + 1 } := by
        rw [Line.next, hnumber]
      have hrest := ih state' (number + 1)
      rw [← hnext] at hrest
      dsimp only [goOn]
      generalize run settings state' line.next rest = read at hrest ⊢
      subst hrest
      rfl

theorem tokenize_eq_run (settings : Settings) (modes : ModeStack) (source : Bytes) :
    tokenize settings modes source = (run settings { modes } { number := 1 } source).2 := by
  rw [run_eq_readLines]
  rfl

end Whole
end Reindent.Scan
