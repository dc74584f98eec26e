import Reindent.Error
import Reindent.Proofs.Brackets.Frames

/-! The scope pass over a script that stands on its own: its stack mirrors the frames of the script,
and the script is accepted if its brackets balance. -/
namespace Reindent
open Bytes Text

section Depth

/-- How deep brackets are nested behind a token; none if it closes nothing. -/
def bracketDepth? (depth : Nat) (t : Token) : Option Nat :=
  if t.opensBracket then some (depth + 1)
  else if t.closesBracket then (match depth with
    | 0 => none
    | depth + 1 => some depth)
  else some depth

/-- Among the first tokens some bracket closes nothing. -/
def Overcloses (depth : Nat) (tokens : List Token) : Prop :=
  ∃ front, front <+: tokens ∧
    depth + front.countP Token.opensBracket < front.countP Token.closesBracket

theorem Token.closesBracket_of_opensBracket {t : Token} (h : t.opensBracket = true) :
    t.closesBracket = false := by
  have hdisjoint : ∀ text ∈ openers, closers.contains text = false := by decide
  rw [opensBracket, Bool.and_eq_true, List.contains_iff_mem] at h
  rw [closesBracket, hdisjoint t.text h.2, Bool.and_false]

theorem Token.opensBracket_of_closesBracket {t : Token} (h : t.closesBracket = true) :
    t.opensBracket = false := by
  rw [Bool.eq_false_iff]
  intro ho
  rw [closesBracket_of_opensBracket ho] at h
  exact absurd h (by simp)

variable {depth depth' : Nat} {t : Token} {tokens : List Token}

private theorem countP_cons_of_depth (h : bracketDepth? depth t = some depth')
    (tokens : List Token) :
    depth' + (t :: tokens).countP Token.closesBracket + tokens.countP Token.opensBracket =
      depth + (t :: tokens).countP Token.opensBracket + tokens.countP Token.closesBracket := by
  unfold bracketDepth? at h
  rw [List.countP_cons, List.countP_cons]
  split_ifs at h with ho hc
  · have hclose := Token.closesBracket_of_opensBracket ho
    obtain rfl := Option.some.inj h
    rw [if_neg (by rw [hclose]; exact Bool.false_ne_true), if_pos ho]
    omega
  · cases depth with
    | zero => exact absurd h (by simp)
    | succ depth =>
      obtain rfl := Option.some.inj h
      rw [if_pos hc, if_neg ho]
      omega
  · obtain rfl := Option.some.inj h
    rw [if_neg hc, if_neg ho]
    omega

private theorem overcloses_of_none (h : bracketDepth? depth t = none) :
    Overcloses depth (t :: tokens) := by
  unfold bracketDepth? at h
  split_ifs at h with ho hc
  cases depth with
  | succ depth => exact absurd h (by simp)
  | zero =>
    refine ⟨[t], List.prefix_append [t] tokens, ?_⟩
    simp [ho, hc]

private theorem overcloses_cons_iff (h : bracketDepth? depth t = some depth') :
    Overcloses depth (t :: tokens) ↔ Overcloses depth' tokens := by
  constructor
  · rintro ⟨front, hfront, hcount⟩
    cases front with
    | nil => exact absurd hcount (by simp)
    | cons x front =>
      obtain ⟨rfl, hrest⟩ := List.cons_prefix_cons.1 hfront
      have hadd := countP_cons_of_depth h front
      exact ⟨front, hrest, by omega⟩
  · rintro ⟨front, hfront, hcount⟩
    have hadd := countP_cons_of_depth h front
    exact ⟨t :: front, List.cons_prefix_cons.2 ⟨rfl, hfront⟩, by omega⟩

def depthAfter? (depth : Nat) (tokens : List Token) : Option Nat :=
  tokens.foldlM bracketDepth? depth

theorem depthAfter?_cons (depth : Nat) (t : Token) (tokens : List Token) :
    depthAfter? depth (t :: tokens) = (bracketDepth? depth t).bind (depthAfter? · tokens) :=
  List.foldlM_cons

theorem depthAfter?_append (depth : Nat) (front back : List Token) :
    depthAfter? depth (front ++ back) = (depthAfter? depth front).bind (depthAfter? · back) :=
  List.foldlM_append

theorem depthAfter?_eq_none_iff : depthAfter? depth tokens = none ↔ Overcloses depth tokens := by
  induction tokens generalizing depth with
  | nil =>
    refine iff_of_false (by simp [depthAfter?]) ?_
    rintro ⟨front, hfront, hcount⟩
    obtain rfl := List.prefix_nil.1 hfront
    exact absurd hcount (by simp)
  | cons t tokens ih =>
    rw [depthAfter?_cons]
    cases h : bracketDepth? depth t with
    | none => exact iff_of_true rfl (overcloses_of_none h)
    | some depth' =>
      rw [overcloses_cons_iff h]
      exact ih

theorem add_of_depthAfter? (h : depthAfter? depth tokens = some depth') :
    depth' + tokens.countP Token.closesBracket = depth + tokens.countP Token.opensBracket := by
  induction tokens generalizing depth with
  | nil =>
    have hdepth : depth = depth' := Option.some.inj h
    rw [hdepth, List.countP_nil, List.countP_nil]
  | cons t tokens ih =>
    rw [depthAfter?_cons] at h
    obtain ⟨between, hstep, hafter⟩ := Option.bind_eq_some_iff.1 h
    have hrest := ih hafter
    have hadd := countP_cons_of_depth hstep tokens
    omega

end Depth

namespace Scope

def frameKinds (f : Frame) : List Kind :=
  if f.hard && f.caseOpen then [.case, .switch] else [f.kind]

/-- The stack of the pass and the frames of a script tell the same. -/
def Mirrors (stack : Stack) (fs : List Frame) : Prop :=
  stack.map Token.kind = fs.flatMap frameKinds

section Mirrors
variable {p : Progress} {t : Token} {stack : Stack} {f : Frame} {fs fs' : List Frame}

private theorem isBlank_of_bracket (h : t.text ∈ openers ++ closers) : t.isBlank = false := by
  have hall : ∀ text ∈ openers ++ closers, allBlank text = false := by decide
  exact hall t.text h

theorem isBlank_of_opensBracket (h : t.opensBracket = true) : t.isBlank = false := by
  rw [Token.opensBracket, Bool.and_eq_true, List.contains_iff_mem] at h
  exact isBlank_of_bracket (List.mem_append_left _ h.2)

theorem isBlank_of_closesBracket (h : t.closesBracket = true) : t.isBlank = false := by
  rw [Token.closesBracket, Bool.and_eq_true, List.contains_iff_mem] at h
  exact isBlank_of_bracket (List.mem_append_right _ h.2)

private theorem close_of_mirrors (h : Mirrors stack (f :: fs)) (ht : t.kind = f.kind) :
    ∃ opener rest, close stack t = .ok (opener, rest) ∧ Mirrors rest fs := by
  unfold Mirrors at h
  rw [List.flatMap_cons] at h
  cases hhard : f.hard with
  | false =>
    have hkinds : frameKinds f = [.script] := by simp [frameKinds, Frame.kind, hhard]
    have hkind : t.kind = .script := by rw [ht, Frame.kind, hhard]; rfl
    rw [hkinds] at h
    obtain ⟨top, rest, rfl, htop, hrest⟩ := List.map_eq_cons_iff.1 h
    refine ⟨top, rest, ?_, hrest⟩
    unfold close
    rw [hkind]
    exact if_pos htop
  | true =>
    have hkind : t.kind = .switch := by rw [ht, Frame.kind, hhard]; rfl
    cases hcase : f.caseOpen with
    | false =>
      have hkinds : frameKinds f = [.switch] := by simp [frameKinds, Frame.kind, hhard, hcase]
      rw [hkinds] at h
      obtain ⟨top, rest, rfl, htop, hrest⟩ := List.map_eq_cons_iff.1 h
      refine ⟨top, rest, ?_, hrest⟩
      simp [close, hkind, takeSwitch?, htop]
    | true =>
      have hkinds : frameKinds f = [.case, .switch] := by simp [frameKinds, hhard, hcase]
      rw [hkinds] at h
      obtain ⟨label, below, rfl, hlabel, hbelow⟩ := List.map_eq_cons_iff.1 h
      obtain ⟨top, rest, rfl, htop, hrest⟩ := List.map_eq_cons_iff.1 hbelow
      refine ⟨top, rest, ?_, hrest⟩
      simp [close, hkind, takeSwitch?, hlabel, htop]

private theorem step_of_opens (hp : Mirrors p.stack fs) (hf : f.caseOpen = false)
    (hv : t.isBlank = false) (hi : t.indents = true) (hd : t.dedents = false)
    (hk : t.kind = f.kind) : ∃ r, p.step t = .ok r ∧ Mirrors r.1.stack (f :: fs) := by
  have hkinds : frameKinds f = [f.kind] := by simp [frameKinds, hf]
  refine ⟨_, Progress.step_of_open (Or.inr hv) hd, ?_⟩
  unfold Mirrors at hp ⊢
  rw [Progress.stack_push, hi, if_pos rfl, Progress.stack_start, List.map_cons, hp,
    List.flatMap_cons, hkinds, ← hk]
  rfl

private theorem step_of_closes (hp : Mirrors p.stack (f :: fs)) (hv : t.isBlank = false)
    (hi : t.indents = false) (hd : t.dedents = true) (hk : t.kind = f.kind) :
    ∃ r, p.step t = .ok r ∧ Mirrors r.1.stack fs := by
  obtain ⟨opener, rest, hclose, hrest⟩ := close_of_mirrors hp hk
  refine ⟨_, Progress.step_of_close (Or.inr hv) hd hclose, ?_⟩
  rw [Progress.stack_push, hi, if_neg Bool.false_ne_true, Progress.stack_start]
  exact hrest

private theorem step_of_label (hp : Mirrors p.stack (f :: fs)) (hf : f.hard = true)
    (hv : t.isBlank = false) (hi : t.indents = true) (hd : t.dedents = f.caseOpen)
    (hk : t.kind = .case) :
    ∃ r, p.step t = .ok r ∧ Mirrors r.1.stack ({ f with caseOpen := true } :: fs) := by
  have hkinds : frameKinds { f with caseOpen := true } = [.case, .switch] := by
    simp [frameKinds, hf]
  unfold Mirrors at hp ⊢
  rw [List.flatMap_cons] at hp ⊢
  rw [hkinds]
  cases hcase : f.caseOpen with
  | false =>
    have hbefore : frameKinds f = [.switch] := by simp [frameKinds, Frame.kind, hf, hcase]
    rw [hcase] at hd
    refine ⟨_, Progress.step_of_open (Or.inr hv) hd, ?_⟩
    rw [Progress.stack_push, hi, if_pos rfl, Progress.stack_start, List.map_cons, hp, hbefore, hk]
    rfl
  | true =>
    have hbefore : frameKinds f = [.case, .switch] := by simp [frameKinds, hf, hcase]
    rw [hcase] at hd
    rw [hbefore] at hp
    obtain ⟨label, rest, hstack, hlabel, hrest⟩ := List.map_eq_cons_iff.1 hp
    have hclose : close p.stack t = .ok (label, rest) := by
      rw [hstack]
      unfold close
      rw [hk]
      exact if_pos hlabel
    refine ⟨_, Progress.step_of_close (Or.inr hv) hd hclose, ?_⟩
    rw [Progress.stack_push, hi, if_pos rfl, Progress.stack_start, List.map_cons, hrest, hk]
    rfl

/-- What one token of a script makes of the stack, it makes of the frames. Only a bracket without a
partner is refused. -/
theorem step_of_mirrors (h : Frame.Step t fs fs') (hp : Mirrors p.stack fs)
    (ht : t.kind = .template → t.nests = false) :
    (bracketDepth? fs.length t = none ∧ p.step t = .error (.closesNothing t)) ∨
      (bracketDepth? fs.length t = some fs'.length ∧
        ∃ r, p.step t = .ok r ∧ Mirrors r.1.stack fs') := by
  cases h with
  | passes hn ho hc =>
    right
    -- the frames know nothing of template tags: that they do not nest is an assumption
    have hnests : t.nests = false := hn.elim id ht
    obtain ⟨r, hr, hstack⟩ := p.exists_step_of_not_nests hnests
    refine ⟨by simp [bracketDepth?, ho, hc], r, hr, ?_⟩
    rw [hstack]
    exact hp
  | opens f hf ho hi hd hk =>
    exact Or.inr ⟨by simp [bracketDepth?, ho],
      step_of_opens hp hf (isBlank_of_opensBracket ho) hi hd hk⟩
  | closes hc hi hd hk =>
    have ho := Token.opensBracket_of_closesBracket hc
    exact Or.inr ⟨by simp [bracketDepth?, ho, hc],
      step_of_closes hp (isBlank_of_closesBracket hc) hi hd hk⟩
  | surplus hc hd =>
    left
    have hstack : p.stack = [] := List.map_eq_nil_iff.1 hp
    have ho := Token.opensBracket_of_closesBracket hc
    refine ⟨by simp [bracketDepth?, ho, hc],
      Progress.step_of_error (Or.inr (isBlank_of_closesBracket hc)) hd ?_⟩
    rw [hstack]
    rfl
  | label hf ho hc hv hi hd hk =>
    exact Or.inr ⟨by simp [bracketDepth?, ho, hc], step_of_label hp hf hv hi hd hk⟩

theorem Mirrors.nil_iff (h : Mirrors stack fs) : stack = [] ↔ fs = [] := by
  have hne : ∀ f : Frame, frameKinds f ≠ [] := by
    intro f
    unfold frameKinds
    split_ifs <;> simp
  unfold Mirrors at h
  rw [← List.map_eq_nil_iff (f := Token.kind), h, List.flatMap_eq_nil_iff]
  constructor
  · intro hall
    cases fs with
    | nil => rfl
    | cons f fs => exact absurd (hall f List.mem_cons_self) (hne f)
  · rintro rfl
    simp

end Mirrors

/-- The pass stops at a bracket without a partner if there is one. Otherwise it mirrors the frames at
the end. -/
def Tracks (tokens : List Token) (fs fs' : List Frame) (stack : Stack)
    (error? : Option ScopeError) : Prop :=
  (depthAfter? fs.length tokens = none ∧ ∃ t, error? = some (.closesNothing t)) ∨
    (depthAfter? fs.length tokens = some fs'.length ∧ error? = none ∧ Mirrors stack fs')

section Runs
variable {fs fs' : List Frame} {tokens : List Token}

theorem tracks_walk {p : Progress} (h : Frame.Steps fs tokens fs') (hp : Mirrors p.stack fs)
    (ht : ∀ t ∈ tokens, t.kind = .template → t.nests = false) :
    Tracks tokens fs fs' (p.walk tokens).1.stack (p.walk tokens).2.2 := by
  induction h generalizing p with
  | nil fs => exact Or.inr ⟨rfl, rfl, hp⟩
  | @cons t tokens fs between fs' hstep _ ih =>
    unfold Tracks at ih ⊢
    rw [depthAfter?_cons]
    rcases step_of_mirrors hstep hp (ht t List.mem_cons_self) with
      ⟨hdepth, herror⟩ | ⟨hdepth, r, hr, hmirrors⟩
    · rw [hdepth, Progress.walk_of_error herror]
      exact Or.inl ⟨rfl, t, rfl⟩
    · rw [hdepth, Progress.walk_of_ok hr]
      exact ih hmirrors fun x hx => ht x (List.mem_cons_of_mem _ hx)

theorem tracks_passLines {stack : Stack} {lines : List Line}
    (h : Frame.Steps fs (lines.flatMap Line.tokens) fs') (hp : Mirrors stack fs)
    (ht : ∀ t ∈ lines.flatMap Line.tokens, t.kind = .template → t.nests = false) :
    Tracks (lines.flatMap Line.tokens) fs fs' (passLines stack lines).stack
      (passLines stack lines).error? := by
  induction lines generalizing stack fs with
  | nil =>
    cases h
    exact Or.inr ⟨rfl, rfl, hp⟩
  | cons line rest ih =>
    rw [List.flatMap_cons] at h ht ⊢
    obtain ⟨between, hline, hrest⟩ := h.split
    unfold Tracks at ih ⊢
    rw [depthAfter?_append]
    rcases tracks_walk (p := { stack }) hline hp
        (fun t hmem => ht t (List.mem_append_left _ hmem)) with
      ⟨hdepth, t, herror⟩ | ⟨hdepth, herror, hmirrors⟩
    · rw [hdepth, passLines_of_error herror]
      exact Or.inl ⟨rfl, t, rfl⟩
    · rw [hdepth, passLines_of_ok herror]
      exact ih hrest hmirrors fun t hmem => ht t (List.mem_append_right _ hmem)

end Runs

end Scope

/-- No first part of the tokens has more closing than opening brackets. -/
def Covered (tokens : List Token) : Prop :=
  ∀ front, front <+: tokens →
    front.countP Token.closesBracket ≤ front.countP Token.opensBracket

theorem covered_iff {tokens : List Token} : Covered tokens ↔ ¬ Overcloses 0 tokens := by
  constructor
  · rintro h ⟨front, hfront, hcount⟩
    have hle := h front hfront
    omega
  · intro h front hfront
    by_contra hcount
    exact h ⟨front, hfront, by omega⟩

/-- The three ways in which the pass over a script can end. -/
private theorem assign_cases {lines : List Line} {fs : List Frame}
    (h : Frame.Steps [] (lines.flatMap Line.tokens) fs)
    (ht : ∀ t ∈ lines.flatMap Line.tokens, t.kind = .template → t.nests = false) :
    let tokens := lines.flatMap Line.tokens
    (¬ Covered tokens ∧ ∃ t, Scope.assign lines = .error (.closesNothing t)) ∨
    (Covered tokens ∧ tokens.countP Token.closesBracket < tokens.countP Token.opensBracket ∧
      ∃ t, Scope.assign lines = .error (.neverClosed t)) ∨
    (Covered tokens ∧ tokens.countP Token.closesBracket = tokens.countP Token.opensBracket ∧
      ∃ lines', Scope.assign lines = .ok lines') := by
  dsimp only
  rw [covered_iff, ← depthAfter?_eq_none_iff, Scope.assign_eq]
  rcases Scope.tracks_passLines h (rfl : Scope.Mirrors [] []) ht with
    ⟨hdepth, t, herror⟩ | ⟨hdepth, herror, hmirrors⟩
  · rw [List.length_nil] at hdepth
    rw [herror]
    exact Or.inl ⟨fun hno => hno hdepth, t, rfl⟩
  · have hadd := add_of_depthAfter? hdepth
    rw [List.length_nil] at hdepth hadd
    rw [herror, hdepth]
    cases hstack : (Scope.passLines [] lines).stack with
    | nil =>
      have hfs := hmirrors.nil_iff.1 hstack
      rw [hfs, List.length_nil] at hadd
      exact Or.inr (Or.inr ⟨by simp, by omega, _, rfl⟩)
    | cons t rest =>
      have hfs : fs ≠ [] := by
        intro hfs
        rw [hmirrors.nil_iff.2 hfs] at hstack
        exact absurd hstack (by simp)
      have hpos := List.length_pos_iff.2 hfs
      exact Or.inr (Or.inl ⟨by simp, by omega, t, rfl⟩)

/-- A script that stands on its own and whose template tags do not nest is never refused because of
kinds. It is accepted if its brackets balance, and else it fails at the first bracket that closes
nothing, or at its end because of a bracket that is never closed. -/
theorem script_accepted_iff (settings : Scan.Settings) (source : Bytes) :
    ∃ lines, tokenize settings { active := .script {} } source = .ok lines ∧
      ((∀ t ∈ lines.flatMap Line.tokens, t.kind = .template →
          t.indents = false ∧ t.dedents = false) →
        let tokens := lines.flatMap Line.tokens
        (∀ e, Scope.assign lines = .error e → e.type ≠ ascii "kind_mismatch") ∧
        ((Scope.assign lines).isOk = true ↔ Covered tokens ∧
          tokens.countP Token.closesBracket = tokens.countP Token.opensBracket) ∧
        (¬ Covered tokens →
          ∃ e, Scope.assign lines = .error e ∧ e.type = ascii "unmatched_closing") ∧
        (Covered tokens →
          tokens.countP Token.closesBracket < tokens.countP Token.opensBracket →
          ∃ e, Scope.assign lines = .error e ∧ e.type = ascii "unmatched_opening")) := by
  obtain ⟨lines, fs, hlines, hsteps⟩ := Scan.exists_steps settings source
  refine ⟨lines, hlines, fun hquiet => ?_⟩
  dsimp only
  have hnests : ∀ t ∈ lines.flatMap Line.tokens, t.kind = .template → t.nests = false := by
    intro t ht hkind
    obtain ⟨hi, hd⟩ := hquiet t ht hkind
    rw [Token.nests, hi, hd]
    rfl
  rcases assign_cases hsteps hnests with
    ⟨hcovered, t, hassign⟩ | ⟨hcovered, hless, t, hassign⟩ | ⟨hcovered, hequal, lines', hassign⟩
  · rw [hassign]
    refine ⟨?_, ?_, fun _ => ⟨_, rfl, rfl⟩, fun hcovers => absurd hcovers hcovered⟩
    · intro e he
      obtain rfl := Except.error.inj he
      show ascii "unmatched_closing" ≠ ascii "kind_mismatch"
      decide
    · exact iff_of_false Bool.false_ne_true fun hbalanced => hcovered hbalanced.1
  · rw [hassign]
    refine ⟨?_, ?_, fun hno => absurd hcovered hno, fun _ _ => ⟨_, rfl, rfl⟩⟩
    · intro e he
      obtain rfl := Except.error.inj he
      show ascii "unmatched_opening" ≠ ascii "kind_mismatch"
      decide
    · exact iff_of_false Bool.false_ne_true fun hbalanced => absurd hbalanced.2 (by omega)
  · rw [hassign]
    refine ⟨?_, iff_of_true rfl ⟨hcovered, hequal⟩, fun hno => absurd hcovered hno, ?_⟩
    · intro e he
      exact absurd he (by simp)
    · intro _ hless
      omega

/-- A switch statement with two labels. The bracket in the string does not count, and brackets close
each other whatever their form. -/
def switchScript : Bytes := ascii "switch(a)\x7bcase 1:'(';default:[)]"

theorem script_accepted_iff_switch :
    ∃ lines, tokenize {} { active := .script {} } switchScript = .ok lines ∧
      (lines.flatMap Line.tokens).countP Token.opensBracket = 3 ∧
      Covered (lines.flatMap Line.tokens) ∧ (Scope.assign lines).isOk = true := by
  obtain ⟨lines, hlines, h⟩ := script_accepted_iff {} switchScript
  have hread : ∀ {α : Type} (f : List Line → α) {x : α},
      (tokenize {} { active := .script {} } switchScript).toOption.map f = some x → f lines = x := by
    intro α f x hx
    rw [hlines] at hx
    exact Option.some.inj hx
  have hopens := hread (fun lines => (lines.flatMap Line.tokens).countP Token.opensBracket)
    (show _ = some 3 by decide +kernel)
  have hdepth := hread (fun lines => depthAfter? 0 (lines.flatMap Line.tokens))
    (show _ = some (some 0) by decide +kernel)
  have hkinds := hread (fun lines => (lines.flatMap Line.tokens).all (·.kind != .template))
    (show _ = some true by decide +kernel)
  simp only [List.all_eq_true, bne_iff_ne] at hkinds
  have hcovered : Covered (lines.flatMap Line.tokens) := by
    rw [covered_iff, ← depthAfter?_eq_none_iff, hdepth]
    simp
  have hcloses := add_of_depthAfter? hdepth
  obtain ⟨-, hok, -, -⟩ := h fun t ht hkind => absurd hkind (hkinds t ht)
  exact ⟨lines, hlines, hopens, hcovered, hok.2 ⟨hcovered, by omega⟩⟩

end Reindent
