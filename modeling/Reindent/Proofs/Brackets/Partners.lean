import Mathlib.Data.List.Induction
import Reindent.Proofs.Brackets.States
import Reindent.Proofs.Matching.Acceptance
import Reindent.Proofs.Matching.Starts

/-! Which brackets of a script belong together. The open brackets are the open scopes of script kind,
so a closing bracket ends the scope of its partner, whatever template tags straddle it. -/
namespace Reindent
open Bytes

def Kind.isBracket : Kind → Bool
  | .script | .switch => true
  | _ => false

/-- A token opens or closes a scope of script kind if it is a bracket. -/
structure Token.Tidy (t : Token) : Prop where
  opens : t.opensBracket = true →
    t.indents = true ∧ t.dedents = false ∧ t.kind.isBracket = true
  closes : t.closesBracket = true →
    t.indents = false ∧ t.dedents = true ∧ t.kind.isBracket = true
  other : t.opensBracket = false → t.closesBracket = false →
    t.nests = false ∨ t.kind.isBracket = false

theorem Frame.isBracket_kind (f : Frame) : f.kind.isBracket = true := by
  unfold kind
  split_ifs <;> rfl

theorem ScriptState.Step.tidy {leads : Bool} {t : Token} {s s' : ScriptState}
    (h : Step leads t s s') : t.Tidy := by
  have hframes := h.frames
  have hsurplus := h.surplus
  have hno : ∀ {b : Bool} {P : Prop}, b = false → b = true → P :=
    fun hf ht => absurd (hf.symm.trans ht) Bool.false_ne_true
  generalize s.frames = fs at hframes hsurplus
  generalize s'.frames = fs' at hframes
  cases hframes with
  | passes ht ho hc =>
    refine ⟨hno ho, hno hc, fun _ _ => ht.imp_right fun hk => ?_⟩
    rw [hk]
    rfl
  | opens f _ ho hi hd hk =>
    refine ⟨fun _ => ⟨hi, hd, hk ▸ f.isBracket_kind⟩,
      hno (Token.closesBracket_of_opensBracket ho), fun hopen _ => hno hopen ho⟩
  | @closes f _ hc hi hd hk =>
    refine ⟨hno (Token.opensBracket_of_closesBracket hc),
      fun _ => ⟨hi, hd, hk ▸ f.isBracket_kind⟩, fun _ hclose => hno hclose hc⟩
  | surplus hc hd =>
    obtain ⟨hi, hk⟩ := hsurplus hc rfl
    refine ⟨hno (Token.opensBracket_of_closesBracket hc), fun _ => ⟨hi, hd, ?_⟩,
      fun _ hclose => hno hclose hc⟩
    rw [hk]
    rfl
  | label _ ho hc _ _ _ hk =>
    refine ⟨hno ho, hno hc, fun _ _ => Or.inr ?_⟩
    rw [hk]
    rfl

theorem ScriptState.Steps.tidy {s s' : ScriptState} {tokens : List Token}
    (h : Steps s tokens s') : ∀ t ∈ tokens, t.Tidy := by
  induction h with
  | nil s => simp
  | cons ht _ ih =>
    intro x hx
    rcases List.mem_cons.1 hx with rfl | hx
    · exact ht.tidy
    · exact ih x hx

namespace Scope

/-- What a token makes of the list of open brackets. -/
def bracketStep (opens : List Mark) (m : Mark) : List Mark :=
  if m.token.opensBracket then m :: opens
  else if m.token.closesBracket then opens.tail
  else opens

/-- The brackets that are open behind some tokens, the innermost first. -/
def openBrackets (ms : List Mark) : List Mark := ms.foldl bracketStep []

/-- An opening and a closing bracket belong together if the brackets between them balance. -/
def Partners (ms : List Mark) (o c : Mark) : Prop :=
  ∃ front between back, ms = front ++ o :: (between ++ c :: back) ∧
    o.token.opensBracket = true ∧ c.token.closesBracket = true ∧
    depthAfter? 0 (between.map Mark.token) = some 0

section Brackets
variable {m o c : Mark} {ms opens rest : List Mark}

theorem bracketStep_of_opens (h : m.token.opensBracket = true) (opens : List Mark) :
    bracketStep opens m = m :: opens := if_pos h

theorem bracketStep_of_closes (h : m.token.closesBracket = true) (opens : List Mark) :
    bracketStep opens m = opens.tail := by
  have ho := Token.opensBracket_of_closesBracket h
  simp [bracketStep, ho, h]

theorem bracketStep_of_neither (ho : m.token.opensBracket = false)
    (hc : m.token.closesBracket = false) (opens : List Mark) : bracketStep opens m = opens := by
  simp [bracketStep, ho, hc]

theorem exists_foldl_bracketStep {depth depth' : Nat} {inner : List Mark}
    (h : depthAfter? depth (ms.map Mark.token) = some depth') (hd : inner.length = depth)
    (outer : List Mark) : ∃ inner', inner'.length = depth' ∧
      ms.foldl bracketStep (inner ++ outer) = inner' ++ outer := by
  induction ms generalizing depth inner with
  | nil =>
    have hdepth : depth = depth' := Option.some.inj h
    exact ⟨inner, hd.trans hdepth, rfl⟩
  | cons m ms ih =>
    rw [List.map_cons, depthAfter?_cons] at h
    obtain ⟨next, hnext, hrest⟩ := Option.bind_eq_some_iff.1 h
    unfold bracketDepth? at hnext
    rw [List.foldl_cons]
    split_ifs at hnext with ho hc
    · rw [bracketStep_of_opens ho, ← List.cons_append]
      exact ih hrest (by rw [List.length_cons, hd]; exact Option.some.inj hnext)
    · cases inner with
      | nil =>
        subst hd
        exact absurd hnext (by simp)
      | cons x inner =>
        subst hd
        rw [bracketStep_of_closes hc, List.cons_append, List.tail_cons]
        exact ih hrest (Option.some.inj hnext)
    · rw [bracketStep_of_neither (Bool.eq_false_iff.2 ho) (Bool.eq_false_iff.2 hc)]
      exact ih hrest (hd.trans (Option.some.inj hnext))

/-- Every open bracket, and the brackets that were opened behind it. -/
theorem exists_of_openBrackets {inner : List Mark} (h : openBrackets ms = inner ++ o :: rest) :
    ∃ front between, ms = front ++ o :: between ∧ o.token.opensBracket = true ∧
      depthAfter? 0 (between.map Mark.token) = some inner.length := by
  induction ms using List.reverseRecOn generalizing inner with
  | nil => exact absurd h (by simp [openBrackets])
  | append_singleton ms m ih =>
    have hfold : openBrackets (ms ++ [m]) = bracketStep (openBrackets ms) m := by
      unfold openBrackets
      rw [List.foldl_append]
      rfl
    -- one more token behind an open bracket
    have hbehind : ∀ inner' : List Mark, openBrackets ms = inner' ++ o :: rest →
        bracketDepth? inner'.length m.token = some inner.length →
        ∃ front between, ms ++ [m] = front ++ o :: between ∧ o.token.opensBracket = true ∧
          depthAfter? 0 (between.map Mark.token) = some inner.length := by
      intro inner' hopen hdepth
      obtain ⟨front, between, rfl, ho, hbetween⟩ := ih hopen
      refine ⟨front, between ++ [m], by simp, ho, ?_⟩
      rw [List.map_append, depthAfter?_append, hbetween]
      change depthAfter? inner'.length [m.token] = _
      rw [depthAfter?_cons, hdepth]
      rfl
    rw [hfold] at h
    cases ho : m.token.opensBracket with
    | true =>
      rw [bracketStep_of_opens ho] at h
      cases inner with
      | nil =>
        obtain ⟨rfl, -⟩ := List.cons.inj h
        exact ⟨ms, [], rfl, ho, rfl⟩
      | cons x inner =>
        exact hbehind inner (List.cons.inj h).2 (by simp [bracketDepth?, ho])
    | false =>
      cases hc : m.token.closesBracket with
      | true =>
        rw [bracketStep_of_closes hc] at h
        obtain ⟨x, hx⟩ : ∃ x, openBrackets ms = x :: (inner ++ o :: rest) := by
          cases hopen : openBrackets ms with
          | nil =>
            rw [hopen] at h
            exact absurd h (by simp)
          | cons x opens =>
            rw [hopen] at h
            exact ⟨x, by rw [← h]; rfl⟩
        exact hbehind (x :: inner) hx (by simp [bracketDepth?, ho, hc])
      | false =>
        rw [bracketStep_of_neither ho hc] at h
        exact hbehind inner h (by simp [bracketDepth?, ho, hc])

/-- The partner of a closing bracket is the innermost bracket that is open in front of it. -/
theorem partners_iff {front back : List Mark} (hc : c.token.closesBracket = true)
    (hsorted : (front ++ c :: back).Pairwise fun a b => a.place < b.place) :
    Partners (front ++ c :: back) o c ↔ (openBrackets front).head? = some o := by
  constructor
  · rintro ⟨outer, between, behind, hsplit, ho, -, hbetween⟩
    have hfront : front = outer ++ o :: between := by
      have hplace := filter_place hsorted
      rw [hsplit, ← List.cons_append, ← List.append_assoc] at hplace hsorted
      rw [← hplace, filter_place hsorted]
    obtain ⟨inner, hinner, hfold⟩ :=
      exists_foldl_bracketStep hbetween List.length_nil (o :: openBrackets outer)
    rw [List.length_eq_zero_iff.1 hinner] at hfold
    rw [hfront, openBrackets, List.foldl_append, List.foldl_cons, bracketStep_of_opens ho]
    exact congrArg List.head? hfold
  · intro h
    obtain ⟨rest, hopen⟩ := List.head?_eq_some_iff.1 h
    obtain ⟨outer, between, rfl, ho, hbetween⟩ :=
      exists_of_openBrackets (hopen.trans (List.nil_append _).symm)
    exact ⟨outer, between, back, by simp, ho, hc, hbetween⟩

end Brackets

def brackets (stack : List Mark) : List Mark := stack.filter (·.kind.isBracket)

section Stacks
variable {stack after ms : List Mark} {m opener : Mark} {rest : List Mark}

/-- A closing bracket takes the innermost bracket. Labels may lie above it. -/
theorem Takes.brackets_of_bracket (h : Takes Mark.kind m.kind stack opener rest)
    (hm : m.kind.isBracket = true) : brackets stack = opener :: brackets rest := by
  obtain ⟨above, below, rfl, hpasses, hkind, rfl⟩ := h
  have htemplate : m.kind ≠ .template := by
    intro h
    rw [h] at hm
    exact absurd hm Bool.false_ne_true
  have habove : brackets above = [] := by
    rw [brackets, List.filter_eq_nil_iff]
    intro a ha hbracket
    have hpass := hpasses a ha
    cases hk : m.kind with
    | switch =>
      rw [hk] at hpass
      have hcase : a.kind = .case := by simpa [Kind.passes] using hpass
      rw [hcase] at hbracket
      exact absurd hbracket Bool.false_ne_true
    | script =>
      rw [hk] at hpass
      exact absurd hpass Bool.false_ne_true
    | _ =>
      rw [hk] at hm
      exact absurd hm Bool.false_ne_true
  unfold brackets at *
  rw [List.filter_append, habove, List.nil_append, if_neg htemplate, List.nil_append,
    List.filter_cons_of_pos (by rw [hkind]; exact hm)]

theorem Takes.brackets_of_other (h : Takes Mark.kind m.kind stack opener rest)
    (hm : m.kind.isBracket = false) : brackets rest = brackets stack := by
  obtain ⟨above, below, rfl, hpasses, hkind, rfl⟩ := h
  have hopener : (opener.kind.isBracket) = false := by rw [hkind]; exact hm
  unfold brackets
  rw [List.filter_append, List.filter_append, List.filter_cons_of_neg (by simp [hopener])]
  split_ifs with htemplate
  · rfl
  · have habove : above = [] := by
      cases above with
      | nil => rfl
      | cons a above =>
        have hpass := hpasses a List.mem_cons_self
        cases hk : m.kind with
        | template => exact absurd hk htemplate
        | switch =>
          rw [hk] at hm
          exact absurd hm (by simp [Kind.isBracket])
        | _ =>
          rw [hk] at hpass
          exact absurd hpass Bool.false_ne_true
    rw [habove]

private theorem brackets_onto_of_other (h : m.token.indents = false ∨ m.kind.isBracket = false)
    (stack : List Mark) : brackets (m.onto stack) = brackets stack := by
  unfold Mark.onto brackets
  split_ifs with hi
  · have hm : m.kind.isBracket = false :=
      h.resolve_left fun hno => absurd (hno.symm.trans hi) Bool.false_ne_true
    rw [List.filter_cons_of_neg (by simp [hm])]
  · rfl

/-- What a token makes of the stack, it makes of the open brackets. -/
theorem Advances.brackets (h : Advances stack m after) (ht : m.token.Tidy) :
    brackets after = bracketStep (brackets stack) m ∧
      bracketDepth? (brackets stack).length m.token = some (brackets after).length := by
  have hno : ∀ {b : Bool} {P : Prop}, b = false → b = true → P :=
    fun hf ht => absurd (hf.symm.trans ht) Bool.false_ne_true
  cases ho : m.token.opensBracket with
  | true =>
    obtain ⟨hi, hd, hk⟩ := ht.opens ho
    cases h with
    | closes hd' _ => exact hno hd hd'
    | opens _ =>
      have honto : Scope.brackets (m.onto stack) = m :: Scope.brackets stack := by
        rw [Mark.onto, if_pos hi]
        exact List.filter_cons_of_pos hk
      rw [honto, bracketStep_of_opens ho]
      exact ⟨rfl, by simp [bracketDepth?, ho]⟩
  | false =>
    cases hc : m.token.closesBracket with
    | true =>
      obtain ⟨hi, hd, hk⟩ := ht.closes hc
      cases h with
      | opens hd' => exact hno hd' hd
      | closes _ htakes =>
        rw [brackets_onto_of_other (Or.inl hi), bracketStep_of_closes hc,
          htakes.brackets_of_bracket hk]
        exact ⟨rfl, by simp [bracketDepth?, ho, hc]⟩
    | false =>
      have hsame : Scope.brackets after = Scope.brackets stack := by
        rcases ht.other ho hc with hn | hk
        · rw [h.eq_of_not_nests hn]
        · cases h with
          | opens _ => exact brackets_onto_of_other (Or.inr hk) stack
          | closes _ htakes =>
            rw [brackets_onto_of_other (Or.inr hk), htakes.brackets_of_other hk]
      rw [bracketStep_of_neither ho hc, hsame]
      exact ⟨rfl, by simp [bracketDepth?, ho, hc]⟩

theorem Reaches.brackets (h : Reaches stack ms after) (ht : ∀ m ∈ ms, m.token.Tidy) :
    brackets after = ms.foldl bracketStep (brackets stack) ∧
      depthAfter? (brackets stack).length (ms.map Mark.token) = some (brackets after).length := by
  induction h with
  | nil stack => exact ⟨rfl, rfl⟩
  | cons ha _ ih =>
    obtain ⟨hstep, hdepth⟩ := ha.brackets (ht _ List.mem_cons_self)
    obtain ⟨hrest, hdepths⟩ := ih fun x hx => ht x (List.mem_cons_of_mem _ hx)
    rw [List.foldl_cons, ← hstep, List.map_cons, depthAfter?_cons, hdepth]
    exact ⟨hrest, hdepths⟩

theorem Closes.openBrackets {front back : List Mark} {c : Mark}
    (h : Closes (front ++ c :: back) c opener) (hc : c.token.closesBracket = true)
    (hsorted : (front ++ c :: back).Pairwise fun a b => a.place < b.place)
    (ht : ∀ m ∈ front ++ c :: back, m.token.Tidy) :
    (openBrackets front).head? = some opener := by
  obtain ⟨-, -, stack, rest, hbefore, htakes⟩ := h
  unfold Before at hbefore
  rw [filter_place hsorted] at hbefore
  have hfront := (hbefore.brackets fun m hm => ht m (List.mem_append_left _ hm)).1
  have hkind := (ht c (List.mem_append_right _ List.mem_cons_self)).closes hc
  change Scope.brackets stack = Scope.openBrackets front at hfront
  rw [← hfront, htakes.brackets_of_bracket hkind.2.2]
  rfl

end Stacks

section Documents
variable {above below placed : List Line} {line lower : Line} {t : Token}

theorem depthAfter?_marks (h : assign (above ++ below) = .ok placed)
    (htidy : ∀ m ∈ marks (above ++ below), m.token.Tidy) :
    depthAfter? 0 ((marks above).map Mark.token) ≠ none := by
  have hreaches := (isOk_assign_iff (above ++ below)).1 (by rw [h]; rfl)
  unfold marks at hreaches htidy
  rw [marksFrom_append] at hreaches htidy
  obtain ⟨stack, habove, -⟩ := hreaches.split
  have hdepth := (habove.brackets fun m hm => htidy m (List.mem_append_left _ hm)).2
  intro hnone
  exact absurd (hdepth.symm.trans hnone) (by simp)

/-- A closing bracket at the start of a line has a partner, and puts the line on its level. -/
theorem exists_partner (h : assign (above ++ line :: below) = .ok placed)
    (htidy : ∀ m ∈ marks (above ++ line :: below), m.token.Tidy) (ht : line.first? = some t)
    (hc : t.closesBracket = true) (hlower : placed[above.length]? = some lower) :
    ∃ o ∈ marks (above ++ line :: below), o.token.opensBracket = true ∧
      (openBrackets (marks above)).head? = some o ∧
      (∀ o', Partners (marks (above ++ line :: below)) o' (headMark above t) ↔ o' = o) ∧
      placed[o.line]?.map Line.level = some lower.level := by
  obtain ⟨back, hmarks⟩ := exists_marks_split above below ht
  have hsorted : (marks (above ++ line :: below)).Pairwise fun a b => a.place < b.place :=
    sorted_marksFrom 0 0 _
  obtain ⟨found, hfound, -, hstarts⟩ := starts_of_assign h ht
  obtain rfl : found = lower := Option.some.inj (hfound.symm.trans hlower)
  have htidyc : t.Tidy := htidy (headMark above t) (by rw [hmarks]; simp)
  obtain ⟨o, first, hcloses, horigin, hlevel⟩ := hstarts.closing (htidyc.closes hc).2.1
  rw [hmarks] at hcloses hsorted htidy ⊢
  have hopen := hcloses.openBrackets hc hsorted htidy
  have hpartners : ∀ o', Partners (marks above ++ headMark above t :: back) o' (headMark above t) ↔
      o' = o := by
    intro o'
    rw [partners_iff hc hsorted, hopen, Option.some_inj, eq_comm]
  obtain ⟨_, _, _, hsplit, hopens, -, -⟩ := (hpartners o).2 rfl
  have hmem : o ∈ marks above ++ headMark above t :: back := by
    rw [hsplit]
    simp
  rw [horigin.eq_of_dedents ((htidy o hmem).opens hopens).2.1] at hlevel
  exact ⟨o, hmem, hopens, hopen, hpartners, hlevel⟩

end Documents

end Scope
end Reindent
