import Reindent.Proofs.Brackets.States

/-! Which brace starts the body of a switch statement: the first one behind the word `switch`, be it in
the condition of the statement or behind it. -/
namespace Reindent
open Bytes

/-- The head of a switch statement as the tokens of a script: the word, the condition in parentheses
and the brace of the body, with white space between them. -/
structure SwitchHead where
  word : Token
  gap : List Token
  opener : Token
  condition : List Token
  closer : Token
  space : List Token
  brace : Token
  word_isSwitch : word.isSwitch = true
  gap_blank : ∀ t ∈ gap, t.isBlank = true
  opener_opens : opener.opensBracket = true ∧ opener.text = ascii "("
  condition_balanced : depthAfter? 0 condition = some 0
  condition_plain : ∀ t ∈ condition, t.isSwitch = false
  closer_closes : closer.closesBracket = true ∧ closer.text = ascii ")"
  space_blank : ∀ t ∈ space, t.isBlank = true
  brace_opens : brace.opensBrace = true

namespace SwitchHead

def middle (head : SwitchHead) : List Token :=
  head.gap ++ head.opener :: (head.condition ++ head.closer :: head.space)

def tokens (head : SwitchHead) : List Token := head.word :: (head.middle ++ [head.brace])

def braced (head : SwitchHead) : Bool := head.condition.any Token.opensBrace

private theorem blank_cases {t : Token} (h : t.isBlank = true) :
    t.isSwitch = false ∧ t.opensBrace = false := by
  have hswitch : Text.allBlank (ascii "switch") = false := by decide +kernel
  have hbrace : Text.allBlank (ascii "\x7b") = false := by decide +kernel
  constructor
  · rw [Bool.eq_false_iff]
    intro hs
    simp only [Token.isSwitch, Bool.and_eq_true, beq_iff_eq] at hs
    rw [Token.isBlank, hs.2, hswitch] at h
    exact absurd h Bool.false_ne_true
  · rw [Bool.eq_false_iff]
    intro hb
    simp only [Token.opensBrace, Bool.and_eq_true, beq_iff_eq] at hb
    rw [Token.isBlank, hb.2, hbrace] at h
    exact absurd h Bool.false_ne_true

private theorem parenthesis_cases {t : Token} (h : t.text = ascii "(" ∨ t.text = ascii ")") :
    t.isSwitch = false ∧ t.opensBrace = false := by
  rcases h with h | h
  · simp [Token.isSwitch, Token.opensBrace, h, ascii]
  · simp [Token.isSwitch, Token.opensBrace, h, ascii]

/-- Only the condition can hold a brace in front of that of the body. -/
theorem all_middle (head : SwitchHead) : (∀ t ∈ head.middle, t.isSwitch = false) ∧
    head.middle.all (!·.opensBrace) = !head.braced := by
  have hopener := parenthesis_cases (Or.inl head.opener_opens.2)
  have hcloser := parenthesis_cases (Or.inr head.closer_closes.2)
  constructor
  · intro t ht
    simp only [middle, List.mem_append, List.mem_cons] at ht
    rcases ht with ht | rfl | ht | rfl | ht
    · exact (blank_cases (head.gap_blank t ht)).1
    · exact hopener.1
    · exact head.condition_plain t ht
    · exact hcloser.1
    · exact (blank_cases (head.space_blank t ht)).1
  · have hblank : ∀ {ts : List Token}, (∀ t ∈ ts, t.isBlank = true) →
        ts.all (!·.opensBrace) = true := by
      intro ts hts
      rw [List.all_eq_true]
      intro t ht
      rw [(blank_cases (hts t ht)).2, Bool.not_false]
    simp only [middle, braced, List.all_append, List.all_cons, hblank head.gap_blank,
      hblank head.space_blank, hopener.2, hcloser.2, Bool.not_false, Bool.true_and, Bool.and_true,
      List.not_any_eq_all_not]

end SwitchHead

theorem Token.opensBracket_of_opensBrace {t : Token} (h : t.opensBrace = true) :
    t.opensBracket = true := by
  have hmem : openers.contains (ascii "\x7b") = true := by decide
  simp only [opensBrace, Bool.and_eq_true, beq_iff_eq] at h
  rw [opensBracket, h.1, h.2, hmem]
  rfl

/-- The brace behind the condition of a switch statement starts the body of the statement if the
condition holds no brace. Otherwise the first brace in the condition is taken for it, and the body is
a block like any other. Labels count accordingly. -/
theorem switch_body_iff {settings : Scan.Settings} {source : Bytes} {lines : List Line}
    (h : tokenize settings { active := .script {} } source = .ok lines) (head : SwitchHead)
    {front back : List Token}
    (hlines : lines.flatMap Line.tokens = front ++ head.tokens ++ back) :
    head.brace.indents = true ∧ head.brace.dedents = false ∧
      head.brace.kind = (if head.braced then .script else .switch) ∧
      ∀ inside label rest, back = inside ++ label :: rest → depthAfter? 0 inside = some 0 →
        label.isLabel = true → (label.kind = .case ↔ head.braced = false) := by
  obtain ⟨final, hrun⟩ := Scan.exists_linesRun_script h
  have hsteps := hrun.steps
  rw [hlines, SwitchHead.tokens, List.append_assoc] at hsteps
  obtain ⟨s₀, -, hsteps⟩ := hsteps.split
  rw [List.cons_append, List.append_assoc, List.singleton_append] at hsteps
  cases hsteps with
  | @cons _ _ _ _ s₁ _ hword hsteps =>
  obtain ⟨s₂, hmiddle, hsteps⟩ := hsteps.split
  cases hsteps with
  | @cons leads _ _ _ s₃ _ hbrace hback =>
  obtain ⟨hplain, hall⟩ := head.all_middle
  have hopens := Token.opensBracket_of_opensBrace head.brace_opens
  -- the statement still waits for its body behind the condition if that held no brace
  have hwaits : s₂.switching = !head.braced := by
    rw [hmiddle.switching hplain, hword.switching, head.word_isSwitch, hall]
    rfl
  obtain ⟨hindents, hdedents, hkind⟩ := hbrace.of_opens hopens
  have hframes := hbrace.opened hopens
  rw [hwaits, head.brace_opens, Bool.and_true] at hkind hframes
  refine ⟨hindents, hdedents, ?_, ?_⟩
  · rw [hkind]
    cases head.braced <;> rfl
  · rintro inside label rest rfl hbalanced hlabel
    obtain ⟨s₄, hinside, hrest⟩ := hback.split
    cases hrest with
    | cons hstep _ =>
    have hlasting := hinside.frames.lasting hbalanced
    rw [List.drop_zero, List.drop_zero, hframes, List.map_cons] at hlasting
    obtain ⟨f, fs, hfs, hf, -⟩ := List.map_eq_cons_iff.1 hlasting
    have hhard : f.hard = !head.braced := congrArg Prod.snd hf
    rw [hstep.label hlabel, hfs]
    simp [hhard]

def callHead : SwitchHead where
  word := .numbered 1 (.plain (ascii "switch") .script)
  gap := [.numbered 1 (.plain (ascii " ") .script)]
  opener := .numbered 1 (.opening (ascii "(") .script)
  condition := [.plain (ascii "f") .script, .opening (ascii "(") .script,
    .plain (ascii "a") .script, .closing (ascii ")") .script].map (Token.numbered 1)
  closer := .numbered 1 (.closing (ascii ")") .script)
  space := [.numbered 1 (.plain (ascii " ") .script)]
  brace := .numbered 1 (.opening (ascii "\x7b") .switch)
  word_isSwitch := by decide
  gap_blank := by decide +kernel
  opener_opens := by decide
  condition_balanced := by decide
  condition_plain := by decide
  closer_closes := by decide
  space_blank := by decide +kernel
  brace_opens := by decide

private def callBody : List Token :=
  [.opening (ascii "case") .case, .plain (ascii " 1:") .script,
    .closing (ascii "\x7d") .switch].map (Token.numbered 1)

theorem switch_body_iff_call :
    ∃ lines label rest,
      tokenize {} { active := .script {} } (ascii "switch (f(a)) \x7bcase 1:\x7d") = .ok lines ∧
      lines.flatMap Line.tokens = [] ++ callHead.tokens ++ label :: rest ∧
      callHead.brace.kind = .switch ∧ label.isLabel = true ∧ label.kind = .case := by
  have hread : tokenize {} { active := .script {} } (ascii "switch (f(a)) \x7bcase 1:\x7d") =
      .ok [{ number := 1, tokens := callHead.tokens ++ callBody }] := by
    decide +kernel
  have htokens : [{ number := 1, tokens := callHead.tokens ++ callBody : Line }].flatMap Line.tokens =
      [] ++ callHead.tokens ++ callBody := rfl
  obtain ⟨-, -, hkind, hlabels⟩ := switch_body_iff hread callHead htokens
  have hbraced : callHead.braced = false := by decide
  refine ⟨_, _, _, hread, rfl, ?_, rfl, ?_⟩
  · rw [hkind, hbraced]
    rfl
  · exact (hlabels [] _ _ rfl rfl rfl).2 hbraced

/-- `switch(f({})){`, at the start of a script. The argument of the call is taken for the body. -/
def objectHead : SwitchHead where
  word := .numbered 1 (.plain (ascii "switch") .script)
  gap := []
  opener := .numbered 1 (.opening (ascii "(") .script)
  condition := [.plain (ascii "f") .script, .opening (ascii "(") .script,
    .opening (ascii "\x7b") .switch, .closing (ascii "\x7d") .switch,
    .closing (ascii ")") .script].map (Token.numbered 1)
  closer := .numbered 1 (.closing (ascii ")") .script)
  space := []
  brace := .numbered 1 (.opening (ascii "\x7b") .script)
  word_isSwitch := by decide
  gap_blank := by decide
  opener_opens := by decide
  condition_balanced := by decide
  condition_plain := by decide
  closer_closes := by decide
  space_blank := by decide
  brace_opens := by decide

theorem switch_body_object :
    ∃ lines label rest,
      tokenize {} { active := .script {} } (ascii "switch(f(\x7b\x7d))\x7bcase 1:\x7d") =
        .ok lines ∧
      lines.flatMap Line.tokens = [] ++ objectHead.tokens ++ label :: rest ∧
      objectHead.brace.kind ≠ .switch ∧ label.isLabel = true ∧ label.kind ≠ .case := by
  refine ⟨[{ number := 1, tokens := objectHead.tokens ++ [.plain (ascii "case") .script,
    .plain (ascii " 1:") .script, .closing (ascii "\x7d") .script].map (Token.numbered 1) }],
    _, _, ?_, rfl, ?_, rfl, ?_⟩
  · decide +kernel
  · decide
  · decide

end Reindent
