import Reindent.Proofs.Command.Options

/-! The flags that a command line gives, in their order. Reading them sets one after the other, so
of several flags for one setting the last counts. -/
namespace Reindent.Command.Flags
open Bytes

structure Given where
  setting : Setting
  name : Bytes
  value : Bytes
  deriving DecidableEq, Repr

/-- The flag at the front of a command line, with the arguments behind it. A boolean flag without a
value is set; any other takes the next argument then. -/
inductive Takes : List Bytes → Given → List Bytes → Prop
  | boolean {arg name setting} (rest) : Spells arg name none setting → setting.kind = .boolean →
      Takes (arg :: rest) { setting, name, value := ascii "true" } rest
  | assigned {arg name value setting} (rest) : Spells arg name (some value) setting →
      Takes (arg :: rest) { setting, name, value } rest
  | separate {arg name value setting} (rest) : Spells arg name none setting →
      setting.kind ≠ .boolean → Takes (arg :: value :: rest) { setting, name, value } rest

/-- Where a row of flags ends: at the first argument that is no flag, or behind two dashes. -/
inductive Ends : List Bytes → List Bytes → Prop
  | nil : Ends [] []
  | dashes (rest) : Ends ([45, 45] :: rest) rest
  | argument {arg} (rest) : arg ≠ [45, 45] → text? arg = none → Ends (arg :: rest) (arg :: rest)

/-- A command line is a row of flags and the arguments that are left. -/
inductive Gives : List Bytes → List Given → List Bytes → Prop
  | ends {args left} : Ends args left → Gives args [] left
  | flag {args x rest given left} : Takes args x rest → Gives rest given left →
      Gives args (x :: given) left

def setAll (f : Flags) (given : List Given) : Except FlagError Flags :=
  given.foldlM (fun f x => f.set x.setting x.name x.value) f

section Reading
variable {f g next : Flags} {args rest left : List Bytes} {x : Given}

theorem Takes.setting (h : Takes args x rest) : Setting.ofName? x.name = some x.setting := by
  cases h with
  | boolean _ hspells _ => exact hspells.setting
  | assigned _ hspells => exact hspells.setting
  | separate _ hspells _ => exact hspells.setting

theorem Ends.not_takes (h : Ends args left) : ¬ Takes args x rest := by
  have hspelled : ∀ {arg name value? setting}, Spells arg name value? setting →
      ∀ more, ¬ Ends (arg :: more) left := by
    intro arg name value? setting hspells more hends
    obtain ⟨text, htext, -⟩ := hspells.text
    cases hends with
    | dashes => exact hspells.ne rfl
    | argument _ _ hnone =>
      rw [hnone] at htext
      exact absurd htext (by simp)
  intro htakes
  cases htakes with
  | boolean _ hspells _ => exact hspelled hspells _ h
  | assigned _ hspells => exact hspelled hspells _ h
  | separate _ hspells _ => exact hspelled hspells _ h

theorem Ends.unique {left' : List Bytes} (h : Ends args left) (h' : Ends args left') :
    left = left' := by
  cases h with
  | nil =>
    cases h'
    rfl
  | dashes rest =>
    cases h' with
    | dashes => rfl
    | argument _ hne _ => exact absurd rfl hne
  | argument rest hne _ =>
    cases h' with
    | dashes => exact absurd rfl hne
    | argument => rfl

theorem Spells.unique {arg name name' : Bytes} {value? value?' : Option Bytes}
    {setting setting' : Setting} (h : Spells arg name value? setting)
    (h' : Spells arg name' value?' setting') :
    name = name' ∧ value? = value?' ∧ setting = setting' := by
  obtain ⟨text, htext, hsplit, -⟩ := h.text
  obtain ⟨text', htext', hsplit', -⟩ := h'.text
  rw [htext] at htext'
  obtain rfl := Option.some.inj htext'
  obtain ⟨rfl, rfl⟩ := Prod.mk.inj (hsplit.symm.trans hsplit')
  exact ⟨rfl, rfl, Option.some.inj (h.setting.symm.trans h'.setting)⟩

theorem Takes.unique (h : Takes args x rest) {x' : Given} {rest' : List Bytes}
    (h' : Takes args x' rest') : x = x' ∧ rest = rest' := by
  cases h with
  | boolean _ hspells hkind =>
    cases h' with
    | boolean _ hspells' _ =>
      obtain ⟨rfl, -, rfl⟩ := hspells.unique hspells'
      exact ⟨rfl, rfl⟩
    | assigned _ hspells' => exact absurd (hspells.unique hspells').2.1 (by simp)
    | separate _ hspells' hkind' =>
      obtain ⟨-, -, rfl⟩ := hspells.unique hspells'
      exact absurd hkind hkind'
  | assigned _ hspells =>
    cases h' with
    | boolean _ hspells' _ => exact absurd (hspells.unique hspells').2.1 (by simp)
    | assigned _ hspells' =>
      obtain ⟨rfl, hvalue, rfl⟩ := hspells.unique hspells'
      obtain rfl := Option.some.inj hvalue
      exact ⟨rfl, rfl⟩
    | separate _ hspells' _ => exact absurd (hspells.unique hspells').2.1 (by simp)
  | separate _ hspells hkind =>
    cases h' with
    | boolean _ hspells' hkind' =>
      obtain ⟨-, -, rfl⟩ := hspells.unique hspells'
      exact absurd hkind' hkind
    | assigned _ hspells' => exact absurd (hspells.unique hspells').2.1 (by simp)
    | separate _ hspells' _ =>
      obtain ⟨rfl, -, rfl⟩ := hspells.unique hspells'
      exact ⟨rfl, rfl⟩

theorem Gives.unique {given given' : List Given} {left' : List Bytes} (h : Gives args given left)
    (h' : Gives args given' left') : given = given' ∧ left = left' := by
  induction h generalizing given' with
  | ends hends =>
    cases h' with
    | ends hends' => exact ⟨rfl, hends.unique hends'⟩
    | flag htakes _ => exact absurd htakes hends.not_takes
  | flag htakes _ ih =>
    cases h' with
    | ends hends => exact absurd htakes hends.not_takes
    | flag htakes' hrest =>
      obtain ⟨rfl, rfl⟩ := htakes.unique htakes'
      obtain ⟨rfl, rfl⟩ := ih hrest
      exact ⟨rfl, rfl⟩

/-- A boolean flag without a value is set as if its value were written. -/
theorem set_true {setting : Setting} (name : Bytes) (hkind : setting.kind = .boolean) :
    f.set setting name (ascii "true") = .ok (f.setBoolean setting true) := by
  have htrue : boolean? (ascii "true") = some true := by decide
  rw [set, hkind]
  dsimp only
  rw [htrue]

/-- What a command line gives and what that amounts to. -/
def Amounts (f : Flags) (args : List Bytes) (g : Flags) (left : List Bytes) : Prop :=
  ∃ given, Gives args given left ∧ setAll f given = .ok g

theorem Takes.amounts (h : Takes args x rest) (hset : f.set x.setting x.name x.value = .ok next)
    (hrest : Amounts next rest g left) : Amounts f args g left := by
  obtain ⟨given, hgives, hall⟩ := hrest
  refine ⟨x :: given, .flag h hgives, ?_⟩
  rw [setAll, List.foldlM_cons, hset]
  exact hall

theorem Takes.amounts_bind (h : Takes args x rest)
    (hparse : (do let f ← f.set x.setting x.name x.value; parse f rest) = .ok (g, left))
    (ih : ∀ next, parse next rest = .ok (g, left) → Amounts next rest g left) :
    Amounts f args g left := by
  cases hset : f.set x.setting x.name x.value with
  | error e =>
    rw [hset] at hparse
    exact absurd hparse (by simp [bind, Except.bind])
  | ok next =>
    rw [hset] at hparse
    exact h.amounts hset (ih next hparse)

/-- Flags that can be read are given by the command line and set in their order. -/
theorem amounts_of_parse (h : parse f args = .ok (g, left)) : Amounts f args g left := by
  have hends : ∀ {args left : List Bytes} {f}, Ends args left → Amounts f args f left :=
    fun hends => ⟨[], .ends hends, rfl⟩
  fun_induction parse f args with
  | case1 f =>
    obtain ⟨rfl, rfl⟩ := Prod.mk.inj (Except.ok.inj h)
    exact hends .nil
  | case2 f rest =>
    obtain ⟨rfl, rfl⟩ := Prod.mk.inj (Except.ok.inj h)
    exact hends (.dashes rest)
  | case3 f arg rest hne htext =>
    obtain ⟨rfl, rfl⟩ := Prod.mk.inj (Except.ok.inj h)
    exact hends (.argument rest hne htext)
  | case4 => exact absurd h (by simp)
  | case5 => exact absurd h (by simp)
  | case6 => exact absurd h (by simp)
  | case7 f arg rest hne text htext hform name setting hsetting value hsplit ih =>
    have hspells : Spells arg name (some value) setting :=
      ⟨hne, ⟨text, htext, hsplit, by simpa using hform⟩, hsetting⟩
    exact (Takes.assigned rest hspells).amounts_bind h ih
  | case8 f arg rest hne text htext hform name setting hsetting hkind hsplit ih =>
    have hspells : Spells arg name none setting :=
      ⟨hne, ⟨text, htext, hsplit, by simpa using hform⟩, hsetting⟩
    exact (Takes.boolean rest hspells hkind).amounts (set_true name hkind) (ih h)
  | case9 => exact absurd h (by simp)
  | case10 f arg hne text htext hform name setting hsetting value rest hkind hsplit ih =>
    have hspells : Spells arg name none setting :=
      ⟨hne, ⟨text, htext, hsplit, by simpa using hform⟩, hsetting⟩
    exact (Takes.separate rest hspells hkind).amounts_bind h ih

theorem Gives.setting {given : List Given} (h : Gives args given left) :
    ∀ x ∈ given, Setting.ofName? x.name = some x.setting := by
  induction h with
  | ends _ => exact List.forall_mem_nil _
  | flag htakes _ ih => exact List.forall_mem_cons.2 ⟨htakes.setting, ih⟩

end Reading

section Width

def Given.isWidth (x : Given) : Bool := x.name == ascii "t" || x.name == ascii "tabwidth"

def lastWidth? (given : List Given) : Option Bytes :=
  ((given.filter Given.isWidth).getLast?).map Given.value

variable {f g : Flags} {x : Given} {given : List Given}

theorem Given.isWidth_iff (x : Given) (h : Setting.ofName? x.name = some x.setting) :
    x.isWidth = true ↔ x.setting = .tabWidth := by
  constructor
  · intro hname
    rw [isWidth, Bool.or_eq_true, beq_iff_eq, beq_iff_eq] at hname
    have hshort : Setting.ofName? (ascii "t") = some .tabWidth := by decide
    have hlong : Setting.ofName? (ascii "tabwidth") = some .tabWidth := by decide
    rcases hname with hname | hname
    · rw [hname, hshort] at h
      exact (Option.some.inj h).symm
    · rw [hname, hlong] at h
      exact (Option.some.inj h).symm
  · intro hsetting
    rw [hsetting] at h
    have hnames := List.find?_some h
    simpa [Setting.names, isWidth] using hnames

theorem lastWidth?_cons (x : Given) (given : List Given) :
    lastWidth? (x :: given) = (lastWidth? given).or (if x.isWidth then some x.value else none) := by
  unfold lastWidth?
  rw [List.filter_cons]
  split_ifs with hx
  · rw [List.getLast?_cons]
    cases (given.filter Given.isWidth).getLast? with
    | none => rfl
    | some y => rfl
  · rw [Option.or_none]

theorem tabWidth?_of_set {setting : Setting} {name value : Bytes}
    (hset : f.set setting name value = .ok g) :
    (setting ≠ .tabWidth → g.tabWidth? = f.tabWidth?) ∧
      (setting = .tabWidth → ∃ w, Numeral.integer value = .ok w ∧ g.tabWidth? = some w) := by
  have hboolean : ∀ b, (f.setBoolean setting b).tabWidth? = f.tabWidth? := by
    intro b
    cases setting with
    | _ => rfl
  rw [set] at hset
  split at hset
  · next hkind =>
    split at hset
    · rw [← Except.ok.inj hset]
      exact ⟨fun _ => hboolean _, fun h => absurd hkind (by simp [h, Setting.kind])⟩
    · exact absurd hset (by simp)
  · next hkind =>
    have hsetting : setting = .tabWidth := by
      cases setting with
      | tabWidth => rfl
      | _ => exact absurd hkind (by simp [Setting.kind])
    split at hset
    · next w hw =>
      rw [← Except.ok.inj hset]
      exact ⟨fun h => absurd hsetting h, fun _ => ⟨w, hw, rfl⟩⟩
    · exact absurd hset (by simp)
  · next hkind =>
    rw [← Except.ok.inj hset]
    refine ⟨fun _ => ?_, fun h => absurd hkind (by simp [h, Setting.kind])⟩
    split_ifs
    · rfl
    · rfl
  · next hkind =>
    split at hset
    · rw [← Except.ok.inj hset]
      exact ⟨fun _ => rfl, fun h => absurd hkind (by simp [h, Setting.kind])⟩
    · exact absurd hset (by simp)

/-- The last flag for the tab width decides on it. -/
theorem tabWidth?_of_setAll (hsetting : ∀ x ∈ given, Setting.ofName? x.name = some x.setting)
    (hall : setAll f given = .ok g) :
    (lastWidth? given = none → g.tabWidth? = f.tabWidth?) ∧
      ∀ value, lastWidth? given = some value →
        ∃ w, Numeral.integer value = .ok w ∧ g.tabWidth? = some w := by
  induction given generalizing f with
  | nil =>
    obtain rfl := Except.ok.inj hall
    exact ⟨fun _ => rfl, fun value h => absurd h (by simp [lastWidth?])⟩
  | cons x given ih =>
    rw [setAll, List.foldlM_cons] at hall
    obtain ⟨hx, hrest⟩ := List.forall_mem_cons.1 hsetting
    cases hset : f.set x.setting x.name x.value with
    | error e =>
      rw [hset] at hall
      exact absurd hall (by simp [bind, Except.bind])
    | ok next =>
      rw [hset] at hall
      obtain ⟨hkeep, htake⟩ := tabWidth?_of_set hset
      obtain ⟨hnone, hsome⟩ := ih hrest hall
      rw [lastWidth?_cons]
      cases hlast : lastWidth? given with
      | some value =>
        constructor
        · intro h
          exact absurd h (by simp)
        · intro value' h
          exact hsome value' (hlast.trans h)
      | none =>
        rw [Option.none_or, hnone hlast]
        split_ifs with hwidth
        · constructor
          · intro h
            exact absurd h (by simp)
          · intro value h
            rw [← Option.some.inj h]
            exact htake ((x.isWidth_iff hx).1 hwidth)
        · constructor
          · intro _
            exact hkeep fun h => hwidth ((x.isWidth_iff hx).2 h)
          · intro value h
            exact absurd h (by simp)

end Width
end Reindent.Command.Flags
