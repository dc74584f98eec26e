import Reindent.Formatter

/-! Limits on the tests of tags: a document that is read within them comes out as without them, or
its reading ends with an error at a tag whose test was given up. -/
namespace Reindent

namespace Scan

section Guards
variable {ε : Type}

/-- The run was ended by a test in front of one of its steps. -/
def Refused {α : Type} (guard : Guard ε) (result : Except ε α) : Prop :=
  ∃ state line rest e, guard.refuse? state line rest = some e ∧ result = .error e

/-- Tests in front of the steps do not change what the steps do. -/
theorem readLineWith_cases (guard : Guard ε) (settings : Settings) (below : Bytes) (state : State)
    (line : Line) (rest : Bytes) :
    Refused guard (readLineWith guard settings below state line rest).2 ∨
      readLineWith guard settings below state line rest =
        (readLine settings below state line rest).map id (Except.mapError guard.overrun) := by
  induction hn : rest.length using Nat.strongRecOn generalizing state line rest with
  | _ n ih =>
    rw [readLine, readLineWith, readLineWith]
    cases hrefuse : guard.refuse? state line rest with
    | some e => exact .inl ⟨_, _, _, _, hrefuse, rfl⟩
    | none =>
      dsimp only [Guard.plain]
      split
      · exact .inr rfl
      · exact .inr rfl
      · next state' line' rest' hstep =>
        exact ih rest'.length (hn ▸ length_lt_of_step hstep) state' line' rest' rfl

theorem readLinesWith_cases (guard : Guard ε) (settings : Settings) (state : State) (number : Int64)
    (texts : List (Bytes × Bytes)) :
    Refused guard (readLinesWith guard settings state number texts).2 ∨
      readLinesWith guard settings state number texts =
        (readLines settings state number texts).map id (Except.mapError guard.overrun) := by
  induction texts generalizing state number with
  | nil => exact .inr rfl
  | cons text texts ih =>
    obtain ⟨text, below⟩ := text
    rw [readLines_cons, readLinesWith]
    rcases readLineWith_cases guard settings below state { number } text with
      ⟨state', line', rest', e, hrefuse, he⟩ | hline
    · left
      refine ⟨state', line', rest', e, hrefuse, ?_⟩
      cases hread : readLineWith guard settings below state { number } text with
      | mk next result =>
        rw [hread] at he
        obtain rfl : result = .error e := he
        rfl
    · rw [hline]
      cases readLine settings below state { number } text with
      | mk next result =>
        cases result with
        | error overrun => exact .inr rfl
        | ok line =>
          dsimp only [Prod.map, id_eq, Except.mapError]
          rcases ih next (number + 1) with ⟨state', line', rest', e, hrefuse, he⟩ | hlines
          · left
            refine ⟨state', line', rest', e, hrefuse, ?_⟩
            cases hread : readLinesWith guard settings next (number + 1) texts with
            | mk last result =>
              rw [hread] at he
              obtain rfl : result = .error e := he
              rfl
          · right
            rw [hlines]
            cases readLines settings next (number + 1) texts with
            | mk last result => cases result <;> rfl

end Guards
end Scan

/-- The errors at tags whose tests were given up. -/
inductive GivenUp : Option Limits → Error → Prop
  | intro {limits : Limits} {number column : Int64} {tag reason : Bytes}
    (h : limits.reason? number column tag = some reason) : GivenUp (some limits)
      (.lexical (Bytes.ascii "classifying " ++ Text.quote tag ++ Bytes.ascii ": " ++ reason) number
        (column + 1))

theorem GivenUp.isSyntax {limits? : Option Limits} {e : Error} (h : GivenUp limits? e) :
    e.isSyntax = true := by
  cases h
  rfl

theorem not_givenUp_none (e : Error) : ¬GivenUp none e := nofun

/-- What limits make of a result: an error at a tag, or what it is without them. -/
def Within {α : Type} (limits? : Option Limits) (limited free : Except Failure α) : Prop :=
  (∃ e, limited = .error (.error e) ∧ GivenUp limits? e) ∨ limited = free

section Documents
variable {limits? : Option Limits} {settings : Scan.Settings} {modes : ModeStack} {source : Bytes}

theorem Within.of_ok {α : Type} {limited free : Except Failure α} {a : α}
    (h : Within limits? limited free) (hok : limited = .ok a) : free = .ok a := by
  rcases h with ⟨e, rfl, -⟩ | rfl
  · exact absurd hok (by simp)
  · exact hok

theorem Within.bind {α β : Type} {limited free : Except Failure α}
    (h : Within limits? limited free) (next : α → Except Failure β) :
    Within limits? (limited >>= next) (free >>= next) := by
  rcases h with ⟨e, rfl, he⟩ | rfl
  · exact .inl ⟨e, rfl, he⟩
  · exact .inr rfl

theorem Scan.givenUp_of_refused {α : Type} {result : Except Failure α}
    (h : Scan.Refused (.within settings limits?) result) :
    ∃ e, result = .error (.error e) ∧ GivenUp limits? e := by
  obtain ⟨state, line, rest, e, hrefuse, rfl⟩ := h
  cases limits? with
  | none => exact absurd hrefuse (by simp [Scan.Guard.within])
  | some limits =>
    obtain ⟨e, he, rfl⟩ := Option.map_eq_some_iff.1 hrefuse
    refine ⟨e, rfl, ?_⟩
    simp only [refusal?, Option.bind_eq_bind, Option.bind_eq_some_iff, Option.some.injEq] at he
    obtain ⟨tested, -, reason, hreason, rfl⟩ := he
    exact .intro hreason

theorem tokenize_within (limits? : Option Limits) (settings : Scan.Settings) (modes : ModeStack)
    (source : Bytes) : Within limits? (tokenizeWithin limits? settings modes source)
      ((tokenize settings modes source).mapError fun _ => .overrun) := by
  rcases Scan.readLinesWith_cases (.within settings limits?) settings { modes } 1
    (Scan.linesBelow source) with hrefused | hread
  · exact .inl (Scan.givenUp_of_refused hrefused)
  · right
    rw [tokenizeWithin, hread]
    rfl

theorem tokenizeWithin_none : tokenizeWithin none settings modes source =
    (tokenize settings modes source).mapError fun _ => .overrun :=
  (tokenize_within none settings modes source).resolve_left
    fun ⟨e, _, he⟩ => not_givenUp_none e he

theorem parse_eq : parse settings modes source =
    match tokenize settings modes source with
    | .error _ => .error .overrun
    | .ok lines => (Scope.assign lines).mapError fun e => .error (.structural e.report) := by
  rw [parse, tokenizeWithin_none]
  cases tokenize settings modes source <;> rfl

theorem parse_within : Within limits? (parse settings modes source limits?)
    (parse settings modes source) := by
  have htokens := tokenize_within limits? settings modes source
  rw [← tokenizeWithin_none] at htokens
  exact htokens.bind _

namespace Formatter

theorem lines_within (f : Formatter) (source : Bytes) (limits? : Option Limits) :
    Within limits? (f.lines source limits?) (f.lines source) := by
  unfold lines
  split
  · exact .inr rfl
  · exact parse_within

theorem indent_within (f : Formatter) (source : Bytes) (limits? : Option Limits) :
    Within limits? (f.indent source limits?) (f.indent source) :=
  (f.lines_within source limits?).bind _

theorem debug_within (f : Formatter) (source : Bytes) (limits? : Option Limits) :
    Within limits? (f.debug source limits?) (f.debug source) :=
  (f.lines_within source limits?).bind _

theorem format_within (f : Formatter) (source : Bytes) (limits? : Option Limits) :
    Within limits? (f.format source limits?) (f.format source) :=
  (f.indent_within source limits?).bind _

end Formatter
end Documents
end Reindent
