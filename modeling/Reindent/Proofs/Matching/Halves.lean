import Reindent.Proofs.Matching.Acceptance

/-! Template tags and all other tokens nest side by side: what the pass makes of a document follows
from what it makes of either half alone, and from the order in which the halves open and close. -/
namespace Reindent

/-- The template tags are one half of a document, and all other tokens are the other. -/
def Kind.inHalf (templates : Bool) (kind : Kind) : Bool := (kind == .template) == templates

def Line.half (templates : Bool) (l : Line) : Line :=
  { l with tokens := l.tokens.filter (·.kind.inHalf templates) }

namespace Scope

def half (templates : Bool) (ms : List Mark) : List Mark := ms.filter (·.kind.inHalf templates)

/-- The pass over the lines of one half follows the marks of that half. -/
theorem isOk_assign_half_iff {lines : List Line}
    (h : ∀ l ∈ lines, ∀ t ∈ l.tokens, t.isBlank = true → t.nests = false) (templates : Bool) :
    (assign (lines.map (Line.half templates))).isOk = true ↔
      Reaches [] (half templates (marks lines)) [] := by
  have hhalf : ((half templates (marks lines)).map Mark.token).filter Token.nests =
      ((marks (lines.map (Line.half templates))).map Mark.token).filter Token.nests := by
    unfold half marks
    rw [map_token_marksFrom, List.flatMap_map, List.filter_flatMap]
    have hmap : ((marksFrom 0 0 lines).filter (·.kind.inHalf templates)).map Mark.token =
        (lines.flatMap Line.seen).filter (·.kind.inHalf templates) := by
      rw [← map_token_marksFrom 0 0, List.filter_map]
      rfl
    rw [hmap, List.filter_flatMap, List.filter_flatMap]
    apply List.flatMap_congr
    intro l hl
    rw [filter_nests_seen (l := l.half templates), List.filter_comm, filter_nests_seen (h l hl),
      List.filter_comm]
    · rfl
    · intro t ht
      exact h l hl t (List.mem_of_mem_filter ht)
  rw [isOk_assign_iff]
  exact ⟨fun hr => hr.of_nests hhalf.symm, fun hr => hr.of_nests hhalf⟩

section Splitting
variable {stack after rest ms : List Mark} {m opener : Mark}

theorem inHalf_not (kind : Kind) (templates : Bool) :
    kind.inHalf (!templates) = !kind.inHalf templates := by
  unfold Kind.inHalf
  cases kind == .template <;> cases templates <;> rfl

theorem inHalf_iff {kind : Kind} {templates : Bool} :
    kind.inHalf templates = true ↔ (kind = .template ↔ templates = true) := by
  unfold Kind.inHalf
  cases templates <;> simp

/-- No closer reaches past template tags. -/
theorem inHalf_of_passes {closer inner : Kind} (h : closer.passes inner = true) :
    inner.inHalf false = true := by
  have hinner : inner ≠ .template := by
    rintro rfl
    cases closer <;> simp [Kind.passes] at h
  simpa [inHalf_iff] using hinner

theorem half_onto (m : Mark) (templates : Bool) (stack : List Mark) :
    half templates (m.onto stack) =
      if m.kind.inHalf templates then m.onto (half templates stack) else half templates stack := by
  unfold Mark.onto half
  by_cases hi : m.token.indents = true
  · rw [if_pos hi, if_pos hi, List.filter_cons]
  · rw [if_neg hi, if_neg hi, ite_self]

/-- A closer finds the same opener among the tokens of its half, and leaves the other half alone. -/
theorem Takes.half (h : Takes Mark.kind m.kind stack opener rest) {templates : Bool}
    (hm : m.kind.inHalf templates = true) :
    Takes Mark.kind m.kind (half templates stack) opener (half templates rest) ∧
      half (!templates) rest = half (!templates) stack := by
  obtain ⟨above, below, rfl, hpasses, hkind, rfl⟩ := h
  unfold Scope.half
  rw [List.filter_append, List.filter_append, List.filter_append, List.filter_append,
    List.filter_cons_of_pos (by rw [hkind]; exact hm),
    List.filter_cons_of_neg (by rw [hkind, inHalf_not, hm]; simp)]
  constructor
  · refine ⟨_, _, rfl, ?_, hkind, ?_⟩
    · intro a ha
      exact hpasses a (List.mem_of_mem_filter ha)
    · split_ifs <;> rfl
  · congr 1
    split_ifs with htemplate
    · rfl
    · have hfalse : templates = false := by
        rw [inHalf_iff] at hm
        simpa [htemplate] using hm
      rw [hfalse, List.filter_nil, eq_comm, List.filter_eq_nil_iff]
      intro a ha
      rw [inHalf_not, inHalf_of_passes (hpasses a ha)]
      simp

theorem Ordered.lt_of_above {above below : List Mark} (h : Ordered (above ++ opener :: below) ms)
    {a : Mark} (ha : a ∈ above) : opener.place < a.place := by
  unfold Ordered at h
  have hstack := (List.pairwise_append.1 h).1
  rw [List.pairwise_reverse, List.pairwise_append] at hstack
  exact hstack.2.2 a ha opener List.mem_cons_self

/-- A closer finds among all tokens what it finds among those of its half, provided that no template
tag that was opened later stands in the way. -/
theorem Takes.of_half {templates : Bool} (hm : m.kind.inHalf templates = true)
    (h : Takes Mark.kind m.kind (Scope.half templates stack) opener rest) (ho : Ordered stack ms)
    (hfree : m.kind ≠ .template → ∀ e ∈ Scope.half true stack, ¬ opener.place < e.place) :
    ∃ rest', Takes Mark.kind m.kind stack opener rest' := by
  obtain ⟨above, below, hsplit, hpasses, hkind, -⟩ := h
  obtain ⟨front, back, rfl, rfl, hback⟩ := List.filter_eq_append_iff.1 hsplit
  obtain ⟨between, tail, rfl, hbetween, -, rfl⟩ := List.filter_eq_cons_iff.1 hback
  refine ⟨_, front ++ between, tail, by simp, ?_, hkind, rfl⟩
  intro a ha
  by_cases hhalf : a.kind.inHalf templates = true
  · have hfront : a ∈ front := by
      rcases List.mem_append.1 ha with hfront | hout
      · exact hfront
      · exact absurd hhalf (hbetween a hout)
    exact hpasses a (List.mem_filter.2 ⟨hfront, hhalf⟩)
  · by_cases htemplate : m.kind = .template
    · have hna : a.kind ≠ .template := by
        rw [inHalf_iff] at hm hhalf
        tauto
      rw [htemplate]
      simpa [Kind.passes] using hna
    · -- a template tag above the opener was opened later
      rw [← List.append_assoc] at ho hfree
      have hta : a.kind.inHalf true = true := by
        rw [inHalf_iff] at hm hhalf ⊢
        tauto
      have hmem : a ∈ Scope.half true (front ++ between ++ opener :: tail) :=
        List.mem_filter.2 ⟨List.mem_append_left _ ha, hta⟩
      exact absurd (ho.lt_of_above ha) (hfree htemplate a hmem)

/-- What a closer takes was opened after all template tags, unless it is a template tag itself. -/
theorem Takes.free (h : Takes Mark.kind m.kind stack opener rest) (ho : Ordered stack ms)
    (hm : m.kind ≠ .template) : ∀ e ∈ Scope.half true stack, ¬ opener.place < e.place := by
  obtain ⟨above, below, rfl, hpasses, hkind, -⟩ := h
  intro e he hlater
  obtain ⟨hmem, htemplate⟩ := List.mem_filter.1 he
  rw [inHalf_iff] at htemplate
  rcases List.mem_append.1 hmem with habove | hmem
  · have hother := inHalf_of_passes (hpasses e habove)
    simp [inHalf_iff, htemplate] at hother
  · rcases List.mem_cons.1 hmem with rfl | hbelow
    · exact hm (hkind ▸ htemplate.2 rfl)
    · obtain ⟨front, back, rfl⟩ := List.append_of_mem hbelow
      have hlt : e.place < opener.place := by
        rw [← List.cons_append, ← List.append_assoc] at ho
        exact ho.lt_of_above (List.mem_append_right _ List.mem_cons_self)
      omega

theorem Advances.half (h : Advances stack m after) {templates : Bool}
    (hm : m.kind.inHalf templates = true) :
    Advances (half templates stack) m (half templates after) ∧
      half (!templates) after = half (!templates) stack := by
  have hother : m.kind.inHalf (!templates) = false := by rw [inHalf_not, hm]; rfl
  cases h with
  | opens hd =>
    rw [half_onto, half_onto, if_pos hm, hother, if_neg Bool.false_ne_true]
    exact ⟨.opens hd, rfl⟩
  | closes hd ht =>
    obtain ⟨ht', hkept⟩ := ht.half hm
    rw [half_onto, half_onto, if_pos hm, hother, if_neg Bool.false_ne_true]
    exact ⟨.closes hd ht', hkept⟩

theorem Advances.of_half {templates : Bool} (hm : m.kind.inHalf templates = true)
    (h : Advances (Scope.half templates stack) m after) (ho : Ordered stack ms)
    (hfree : m.token.dedents = true → m.kind ≠ .template → ∀ opener rest,
      Takes Mark.kind m.kind (Scope.half templates stack) opener rest →
        ∀ e ∈ Scope.half true stack, ¬ opener.place < e.place) :
    ∃ after', Advances stack m after' := by
  cases h with
  | opens hd => exact ⟨_, .opens hd⟩
  | closes hd ht =>
    obtain ⟨rest', ht'⟩ := ht.of_half hm ho fun hk => hfree hd hk _ _ ht
    exact ⟨_, .closes hd ht'⟩

/-- A run over all tokens is a run over either half. -/
theorem Reaches.half (h : Reaches stack ms after) (templates : Bool) :
    Reaches (half templates stack) (half templates ms) (half templates after) := by
  induction h with
  | nil stack => exact .nil _
  | @cons _ _ _ m ms ha _ ih =>
    by_cases hm : m.kind.inHalf templates = true
    · have hcons : Scope.half templates (m :: ms) = m :: Scope.half templates ms :=
        List.filter_cons_of_pos hm
      rw [hcons]
      exact .cons (ha.half hm).1 ih
    · have hskip : Scope.half templates (m :: ms) = Scope.half templates ms :=
        List.filter_cons_of_neg hm
      have hother : m.kind.inHalf (!templates) = true := by
        rw [inHalf_not]
        simpa using hm
      have hkept := (ha.half hother).2
      rw [Bool.not_not] at hkept
      rw [hskip, ← hkept]
      exact ih

theorem Before.half (h : Before ms m stack) (templates : Bool) :
    Before (half templates ms) m (half templates stack) := by
  have hr := Reaches.half h templates
  unfold Before Scope.half at *
  rw [List.filter_comm]
  exact hr

theorem Closes.half (h : Closes ms m opener) {templates : Bool}
    (hm : m.kind.inHalf templates = true) : Closes (half templates ms) m opener := by
  obtain ⟨hmem, hd, stack, rest, hbefore, ht⟩ := h
  exact ⟨List.mem_filter.2 ⟨hmem, hm⟩, hd, _, _, hbefore.half templates, (ht.half hm).1⟩

/-- No template tag stays open in front of a closing token that was opened after what that token
closes. Both are looked up in the half where they belong. -/
def Clear (ms : List Mark) : Prop :=
  ∀ m ∈ ms, m.token.dedents = true → m.kind ≠ .template →
    ∀ opener, Closes (half false ms) m opener →
      ∀ stack, Before (half true ms) m stack → ∀ e ∈ stack, ¬ opener.place < e.place

variable (hsorted : ms.Pairwise fun a b => a.place < b.place)
include hsorted

theorem Reaches.before (h : Reaches [] ms after) (hm : m ∈ ms) :
    ∃ stack back next, Before ms m stack ∧ Ordered stack (m :: back) ∧ Advances stack m next := by
  obtain ⟨front, back, rfl⟩ := List.append_of_mem hm
  obtain ⟨stack, hfront, hback⟩ := h.split
  cases hback with
  | cons ha _ =>
    refine ⟨stack, back, _, ?_, hfront.ordered_of_sorted hsorted, ha⟩
    unfold Before
    rw [filter_place hsorted]
    exact hfront

theorem Reaches.closes (h : Reaches [] ms after) (hm : m ∈ ms) (hd : m.token.dedents = true) :
    ∃ opener, Closes ms m opener := by
  obtain ⟨stack, _, _, hbefore, -, ha⟩ := h.before hsorted hm
  cases ha with
  | opens hd' => exact absurd (hd'.symm.trans hd) Bool.false_ne_true
  | @closes opener rest _ ht => exact ⟨opener, hm, hd, stack, rest, hbefore, ht⟩

theorem Reaches.clear (h : Reaches [] ms after) : Clear ms := by
  rintro m hm hd hkind opener ⟨-, -, others, rest, hothers, ht⟩ templates htemplates
  have hhalf : m.kind.inHalf false = true := by simpa [inHalf_iff] using hkind
  obtain ⟨stack, back, _, hbefore, ho, ha⟩ := h.before hsorted hm
  obtain rfl := hothers.unique (hbefore.half false)
  obtain rfl := htemplates.unique (hbefore.half true)
  cases ha with
  | opens hd' => exact absurd (hd'.symm.trans hd) Bool.false_ne_true
  | closes _ ht' =>
    obtain ⟨rfl, -⟩ := ht.unique (ht'.half hhalf).1
    exact ht'.free ho hkind

/-- Runs over the halves that do not get in each other's way are one run over all tokens. -/
theorem Reaches.of_halves (hclear : Clear ms) {front back : List Mark} (hms : ms = front ++ back)
    (hfront : Reaches [] front stack) {ends : Bool → List Mark}
    (hback : ∀ templates, Reaches (Scope.half templates stack) (Scope.half templates back)
      (ends templates)) :
    ∃ after, Reaches stack back after ∧ ∀ templates, Scope.half templates after = ends templates := by
  induction back generalizing front stack with
  | nil =>
    refine ⟨stack, .nil stack, fun templates => ?_⟩
    exact (Reaches.nil _).unique (hback templates)
  | cons m back ih =>
    have hsplit := hms ▸ hsorted
    have hbefore : Before ms m stack := by
      unfold Before
      rw [hms, filter_place hsplit]
      exact hfront
    obtain ⟨side, hside⟩ : ∃ side, m.kind.inHalf side = true :=
      ⟨m.kind == .template, by simp [Kind.inHalf]⟩
    have hcons : Scope.half side (m :: back) = m :: Scope.half side back :=
      List.filter_cons_of_pos hside
    have hskip : Scope.half (!side) (m :: back) = Scope.half (!side) back :=
      List.filter_cons_of_neg (by rw [inHalf_not, hside]; simp)
    have hown := hback side
    rw [hcons] at hown
    cases hown with
    | @cons _ between _ _ _ ha hr =>
      have hfree : m.token.dedents = true → m.kind ≠ .template → ∀ opener rest,
          Takes Mark.kind m.kind (Scope.half side stack) opener rest →
            ∀ e ∈ Scope.half true stack, ¬ opener.place < e.place := by
        intro hd hkind opener rest ht
        have hmem : m ∈ ms := by rw [hms]; simp
        have hfalse : side = false := by simpa [inHalf_iff, hkind] using hside
        rw [hfalse] at ht hside
        exact hclear m hmem hd hkind opener ⟨List.mem_filter.2 ⟨hmem, hside⟩, hd, _, rest,
          hbefore.half false, ht⟩ _ (hbefore.half true)
      obtain ⟨next, hnext⟩ := ha.of_half hside (hfront.ordered_of_sorted hsplit) hfree
      obtain ⟨hown, hother⟩ := hnext.half hside
      obtain rfl := ha.unique hown
      have hrest : ∀ templates, Reaches (Scope.half templates next) (Scope.half templates back)
          (ends templates) := by
        intro templates
        by_cases hsame : templates = side
        · rw [hsame]
          exact hr
        · rw [Bool.eq_not.2 hsame, hother, ← hskip]
          exact hback _
      obtain ⟨after, hafter, hends⟩ := ih (by rw [hms, List.append_assoc]; rfl)
        (hfront.append (.cons hnext (.nil next))) hrest
      exact ⟨after, .cons hnext hafter, hends⟩

end Splitting

/-- A document is accepted if and only if its template tags alone are, its other tokens alone are,
and no template tag stays open across the end of a scope in which it was opened. Every closing token
then closes what it closes in its half. -/
theorem isOk_assign_iff_halves {lines : List Line}
    (h : ∀ l ∈ lines, ∀ t ∈ l.tokens, t.isBlank = true → t.nests = false) :
    ((assign lines).isOk = true ↔
      (assign (lines.map (Line.half true))).isOk = true ∧
      (assign (lines.map (Line.half false))).isOk = true ∧ Clear (marks lines)) ∧
    ((assign lines).isOk = true → ∀ m ∈ marks lines, m.token.dedents = true →
      ∃ opener, Closes (marks lines) m opener ∧
        Closes (half (m.kind == .template) (marks lines)) m opener) := by
  have hsorted : (marks lines).Pairwise fun a b => a.place < b.place := sorted_marksFrom 0 0 lines
  rw [isOk_assign_half_iff h, isOk_assign_half_iff h, isOk_assign_iff]
  refine ⟨⟨fun hr => ⟨hr.half true, hr.half false, hr.clear hsorted⟩, ?_⟩, ?_⟩
  · rintro ⟨htemplates, hothers, hclear⟩
    have hhalves : ∀ templates, Reaches (half templates []) (half templates (marks lines)) [] := by
      intro templates
      cases templates with
      | true => exact htemplates
      | false => exact hothers
    obtain ⟨after, hr, hnone⟩ := Reaches.of_halves hsorted hclear (List.nil_append _).symm
      (.nil []) hhalves
    have hnil : after = [] := by
      rw [List.eq_nil_iff_forall_not_mem]
      intro e he
      have hmem : e ∈ half (e.kind == .template) after :=
        List.mem_filter.2 ⟨he, by simp [Kind.inHalf]⟩
      rw [hnone] at hmem
      exact absurd hmem (by simp)
    rw [hnil] at hr
    exact hr
  · intro hr m hm hd
    obtain ⟨opener, hcloses⟩ := hr.closes hsorted hm hd
    exact ⟨opener, hcloses, hcloses.half (by simp [Kind.inHalf])⟩

/-- A template block and an element that overlap. -/
def straddlingLines : List Line :=
  [[.opening (Bytes.ascii "if") .template, .opening (Bytes.ascii "<p>") .markup],
    [.closing (Bytes.ascii "endif") .template, .closing (Bytes.ascii "</p>") .markup]].map
      fun tokens => { number := 1, tokens }

theorem isOk_assign_iff_halves_straddling :
    Clear (marks straddlingLines) ∧
    ∀ m ∈ marks straddlingLines, m.token.dedents = true →
      ∃ opener, Closes (marks straddlingLines) m opener ∧
        Closes (half (m.kind == .template) (marks straddlingLines)) m opener := by
  have hok : (assign straddlingLines).isOk = true := rfl
  obtain ⟨hiff, hcloses⟩ := @isOk_assign_iff_halves straddlingLines (by decide)
  exact ⟨(hiff.1 hok).2.2, hcloses hok⟩

end Scope
end Reindent
