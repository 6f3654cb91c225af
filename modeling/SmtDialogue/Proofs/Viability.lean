/-
  Which tokens may follow others, so that they can still become a program.

  * `depth`: how many lists are open behind some tokens;
  * `Offends`: a parenthesis that closes no list, the end of the input inside of one, and a numeral
    out of range;
  * `Held`: the expressions and the open lists that tokens have been assembled to;
  * `IsProgram`, `Completable` and `Viable`: the tokens of a program, those that can be completed to
    one, and what may come next then;
  * `completable_iff`: tokens can be completed as long as none of them offends;
  * `exists_viable_iff`: of which kinds the tokens are that may come next.
-/
import Mathlib.Algebra.Group.Nat.Defs
import SmtDialogue.Proofs.Overflow

namespace SmtDialogue.Assembly

open Sexp

variable {tokens before after more : List Token} {t : Token} {cause : SyntaxError} {n : Nat}
  {xs : List Sexp} {opened : OpenLists}

/-! ## Open lists -/

/-- The number of open lists behind one more token. A parenthesis may close none. -/
def depthBehind (n : Nat) : Token → Nat
  | .opening => n + 1
  | .closing => n - 1
  | .endOfInput | .int _ | .string _ | .symbol _ | .keyword _ => n

/-- The number of open lists behind some tokens, `n` being open in front of them. -/
def depthFrom (n : Nat) (tokens : List Token) : Nat :=
  tokens.foldl depthBehind n

/-- The number of lists that are open behind some tokens. -/
def depth (tokens : List Token) : Nat :=
  depthFrom 0 tokens

@[simp] theorem depthFrom_nil (n : Nat) : depthFrom n [] = n := rfl

@[simp] theorem depthFrom_cons (n : Nat) (t : Token) (tokens : List Token) :
    depthFrom n (t :: tokens) = depthFrom (depthBehind n t) tokens := rfl

@[simp] theorem depthFrom_append (n : Nat) (tokens more : List Token) :
    depthFrom n (tokens ++ more) = depthFrom (depthFrom n tokens) more :=
  List.foldl_append

theorem depthBehind_of_isAtom (h : t.IsAtom) : depthBehind n t = n := by
  cases t with
  | int | string | symbol | keyword => rfl
  | endOfInput | opening | closing => exact h.elim

theorem depthFrom_of_balanced (h : Balanced tokens) : depthFrom n tokens = n := by
  induction h generalizing n with
  | nil => rfl
  | atom ht _ ih => rw [depthFrom_cons, depthBehind_of_isAtom ht, ih]
  | list _ _ ihinner ih =>
    rw [depthFrom_cons, depthFrom_append, ihinner, depthFrom_cons, ih]
    rfl

/-- **In well-formed tokens, a list is open before each closing parenthesis.** -/
theorem lt_depthFrom_of_balanced (h : Balanced tokens)
    (hsplit : tokens = before ++ .closing :: after) : n < depthFrom n before := by
  induction h generalizing n before after with
  | nil => simp at hsplit
  | @atom t tokens ht _ ih =>
    cases before with
    | nil =>
      obtain ⟨rfl, -⟩ := List.cons.inj hsplit
      exact ht.elim
    | cons s before =>
      obtain ⟨rfl, htokens⟩ := List.cons.inj hsplit
      rw [depthFrom_cons, depthBehind_of_isAtom ht]
      exact ih htokens
  | @list inner tokens hinner _ ihinner ih =>
    cases before with
    | nil => simp at hsplit
    | cons s before =>
      obtain ⟨rfl, htokens⟩ := List.cons.inj hsplit
      have hopened : n < depthFrom (n + 1) inner := by
        rw [depthFrom_of_balanced hinner]
        exact Nat.lt_succ_self n
      -- the parenthesis stands in the list, closes it, or stands behind it
      rcases List.append_eq_append_iff.1 htokens with
        ⟨rest, hbefore, hrest⟩ | ⟨rest, hinside, hrest⟩
      · cases rest with
        | nil =>
          rw [List.append_nil] at hbefore
          rw [hbefore]
          exact hopened
        | cons s rest =>
          obtain ⟨rfl, hbehind⟩ := List.cons.inj hrest
          rw [hbefore, depthFrom_cons, depthFrom_append, depthFrom_of_balanced hinner,
            depthFrom_cons]
          exact ih hbehind
      · cases rest with
        | nil =>
          rw [List.append_nil] at hinside
          rw [← hinside]
          exact hopened
        | cons s rest =>
          obtain ⟨rfl, -⟩ := List.cons.inj hrest
          exact Nat.lt_of_succ_lt (ihinner hinside)

theorem depthFrom_of_flattensAll (h : FlattensAll xs tokens) : depthFrom n tokens = n :=
  depthFrom_of_balanced (balanced_of_flattensAll xs h).1

theorem depthFrom_of_opened (h : Opened opened tokens) :
    depthFrom n tokens = n + opened.length := by
  induction opened generalizing tokens with
  | nil =>
    obtain rfl := h
    rfl
  | cons items outer ih =>
    obtain ⟨before, inner, rfl, houter, hitems⟩ := h
    rw [depthFrom_append, ih houter, depthFrom_cons, depthFrom_of_flattensAll hitems]
    rfl

/-! ## Offences -/

/-- The token may not stand behind these tokens, and the cause to name. -/
inductive Offends (before : List Token) : Token → SyntaxError → Prop
  | stray : depth before = 0 → Offends before .closing (.unexpectedToken .closing programKinds)
  | ending : depth before ≠ 0 →
      Offends before .endOfInput (.unexpectedToken .endOfInput listKinds)
  | large {digits : String} {k : Nat} : Digits.IsDecimal digits.toList k → 2 ^ 63 - 1 < k →
      Offends before (.int digits) (.integerOverflow digits)

/-- None of the tokens offends. -/
def Sound (tokens : List Token) : Prop :=
  ∀ before t after cause, tokens = before ++ t :: after → ¬ Offends before t cause

theorem sound_nil : Sound [] := by
  intro before t after cause hsplit
  simp at hsplit

theorem sound_concat_iff :
    Sound (tokens ++ [t]) ↔ Sound tokens ∧ ∀ cause, ¬ Offends tokens t cause := by
  constructor
  · intro h
    refine ⟨fun before s after cause hsplit => ?_, fun cause => h tokens t [] cause rfl⟩
    exact h before s (after ++ [t]) cause (by simp [hsplit])
  · rintro ⟨hsound, ht⟩ before s after cause hsplit
    rcases List.eq_nil_or_concat' after with rfl | ⟨after, last, rfl⟩
    · obtain ⟨rfl, hlast⟩ := List.append_inj' hsplit rfl
      obtain rfl := List.singleton_inj.1 hlast
      exact ht cause
    · rw [← List.cons_append, ← List.append_assoc] at hsplit
      exact hsound before s after cause (List.append_inj' hsplit rfl).1

theorem Sound.of_append (h : Sound (tokens ++ more)) : Sound tokens := by
  intro before t after cause hsplit
  exact h before t (after ++ more) cause (by simp [hsplit])

theorem sound_of_flattensAll (hproper : ∀ t ∈ tokens, t.Proper) (h : FlattensAll xs tokens) :
    Sound tokens := by
  obtain ⟨hbalanced, hfit⟩ := balanced_of_flattensAll xs h
  intro before t after cause hsplit hoffends
  have ht : t ∈ tokens := by simp [hsplit]
  cases hoffends with
  | stray hdepth => exact absurd hdepth (Nat.ne_of_gt (lt_depthFrom_of_balanced hbalanced hsplit))
  | ending => exact hproper _ ht
  | @large digits k hdecimal hlarge =>
    have hnone : int? digits = none := by
      rw [int?_eq_none_iff hdecimal, intLimit]
      omega
    have hover := List.findSome?_eq_none_iff.1 hfit _ ht
    simp [Token.overflow?, hnone] at hover

/-! ## What tokens are assembled to -/

/-- When these tokens have been read, some expressions are complete, and some lists are open. -/
def Held (xs : List Sexp) (opened : OpenLists) (tokens : List Token) : Prop :=
  ∃ front inner, tokens = front ++ inner ∧ FlattensAll xs front ∧ Opened opened inner

namespace Held

theorem depth_eq (h : Held xs opened tokens) : depth tokens = opened.length := by
  obtain ⟨front, inner, rfl, hxs, hopened⟩ := h
  rw [depth, depthFrom_append, depthFrom_of_flattensAll hxs, depthFrom_of_opened hopened,
    Nat.zero_add]

/-- **The tokens that are refused are those that offend.** -/
theorem refused_iff (h : Held xs opened before) (ht : t ≠ .endOfInput → t.Proper) :
    step opened t = .refused cause ↔ Offends before t cause := by
  have hdepth : depth before = 0 ↔ opened = [] := by rw [h.depth_eq, List.length_eq_zero_iff]
  rw [step_eq_refused_iff]
  constructor
  · rintro (⟨⟨rfl, hopened⟩ | ⟨rfl, hopened⟩, rfl⟩ | ⟨digits, rfl, hint, rfl⟩)
    · rw [hopened]
      exact .stray (hdepth.2 hopened)
    · rw [expectedKinds, if_neg (by simpa using hopened)]
      exact .ending (mt hdepth.1 hopened)
    · obtain ⟨hne, hdigits⟩ := ht (by simp)
      have hdecimal : Digits.IsDecimal digits.toList _ := ⟨hne, hdigits, rfl⟩
      have hlarge := (int?_eq_none_iff hdecimal).1 hint
      rw [intLimit] at hlarge
      exact .large hdecimal (by omega)
  · rintro (hstray | hinside | ⟨hdecimal, hlarge⟩)
    · exact Or.inl ⟨Or.inl ⟨rfl, hdepth.1 hstray⟩, by rw [hdepth.1 hstray]; rfl⟩
    · have hopened := mt hdepth.2 hinside
      refine Or.inl ⟨Or.inr ⟨rfl, hopened⟩, ?_⟩
      rw [expectedKinds, if_neg (by simpa using hopened)]
    · refine Or.inr ⟨_, rfl, (int?_eq_none_iff hdecimal).2 ?_, rfl⟩
      rw [intLimit]
      omega

/-- **One more token** that does not offend is assembled with the others. -/
theorem snoc (h : Held xs opened tokens) (ht : t.Proper)
    (hsound : ∀ cause, ¬ Offends tokens t cause) :
    ∃ ys still, Held ys still (tokens ++ [t]) := by
  have hrefused (cause : SyntaxError) : step opened t ≠ .refused cause := fun hstep =>
    hsound cause ((h.refused_iff fun _ => ht).1 hstep)
  obtain ⟨front, inner, rfl, hxs, hopened⟩ := h
  have haccounts : (step opened t).Accounts (inner ++ [t]) := accounts_step hopened
  cases hstep : step opened t with
  | complete x =>
    rw [hstep] at haccounts
    refine ⟨xs ++ [x], [], front ++ (inner ++ [t]), [], by simp, ?_, rfl⟩
    exact flattensAll_append.2 ⟨_, _, rfl, hxs, flattensAll_singleton.2 haccounts⟩
  | pending still =>
    rw [hstep] at haccounts
    exact ⟨xs, still, front, inner ++ [t], by simp, hxs, haccounts⟩
  | finished =>
    obtain rfl := (step_eq_finished_iff.1 hstep).2
    exact ht.elim
  | refused cause => exact absurd hstep (hrefused cause)

end Held

theorem exists_held (hproper : ∀ t ∈ tokens, t.Proper) (hsound : Sound tokens) :
    ∃ xs opened, Held xs opened tokens := by
  induction tokens using List.reverseRecOn with
  | nil => exact ⟨[], [], [], [], rfl, rfl, rfl⟩
  | append_singleton tokens t ih =>
    obtain ⟨hbefore, ht⟩ := sound_concat_iff.1 hsound
    obtain ⟨xs, opened, hheld⟩ := ih (fun s hs => hproper s (by simp [hs])) hbefore
    exact hheld.snoc (hproper t (by simp)) ht

theorem exists_closed (h : Opened opened tokens) :
    ∃ xs, FlattensAll xs (tokens ++ List.replicate opened.length .closing) := by
  -- a parenthesis closes the innermost list, and leaves one list less open
  induction hlength : opened.length generalizing opened tokens with
  | zero =>
    obtain rfl := List.length_eq_zero_iff.1 hlength
    obtain rfl := h
    exact ⟨[], rfl⟩
  | succ n ih =>
    obtain ⟨items, outer, rfl⟩ := List.exists_cons_of_length_eq_add_one hlength
    have haccounts : (step (items :: outer) .closing).Accounts (tokens ++ [.closing]) :=
      accounts_step h
    have houter : outer.length = n := Nat.succ.inj hlength
    rw [List.replicate_succ, List.append_cons]
    cases outer with
    | nil =>
      obtain rfl := houter
      have hlist : Flattens (.list items.reverse) (tokens ++ [.closing]) := haccounts
      exact ⟨[.list items.reverse], by simpa using hlist⟩
    | cons others outer => exact ih haccounts houter

/-! ## Programs -/

/-- The tokens are those of a program. -/
def IsProgram (tokens : List Token) : Prop :=
  (∀ t ∈ tokens, t.Proper) ∧ ∃ xs, FlattensAll xs tokens

/-- The tokens can be completed to a program. -/
def Completable (tokens : List Token) : Prop :=
  ∃ more, IsProgram (tokens ++ more)

/-- The token may come next: then there is still a program that goes on like this, or, at the end of
    the input, the tokens are one. -/
def Viable (tokens : List Token) : Token → Prop
  | .endOfInput => IsProgram tokens
  | t => Completable (tokens ++ [t])

/-- **Tokens can be completed to a program as long as none of them offends.** -/
theorem completable_iff : Completable tokens ↔ (∀ t ∈ tokens, t.Proper) ∧ Sound tokens := by
  constructor
  · rintro ⟨more, hproper, xs, hxs⟩
    exact ⟨fun t ht => hproper t (by simp [ht]), (sound_of_flattensAll hproper hxs).of_append⟩
  · rintro ⟨hproper, hsound⟩
    obtain ⟨xs, opened, front, inner, rfl, hxs, hopened⟩ := exists_held hproper hsound
    obtain ⟨ys, hys⟩ := exists_closed hopened
    refine ⟨List.replicate opened.length .closing, ?_, xs ++ ys, ?_⟩
    · intro t ht
      rcases List.mem_append.1 ht with ht | ht
      · exact hproper t ht
      · obtain rfl := List.eq_of_mem_replicate ht
        trivial
    · rw [List.append_assoc]
      exact flattensAll_append.2 ⟨front, _, rfl, hxs, hys⟩

theorem isProgram_iff (h : Completable tokens) : IsProgram tokens ↔ depth tokens = 0 := by
  obtain ⟨hproper, hsound⟩ := completable_iff.1 h
  constructor
  · rintro ⟨-, xs, hxs⟩
    exact depthFrom_of_flattensAll hxs
  · intro hdepth
    obtain ⟨xs, opened, hheld⟩ := exists_held hproper hsound
    obtain rfl : opened = [] := by rw [← List.length_eq_zero_iff, ← hheld.depth_eq, hdepth]
    obtain ⟨front, inner, rfl, hxs, rfl⟩ := hheld
    refine ⟨hproper, xs, ?_⟩
    rwa [List.append_nil]

/-- **What may come next** is what can be spelled and does not offend. -/
theorem viable_iff (h : Completable tokens) :
    Viable tokens t ↔ (t ≠ .endOfInput → t.Proper) ∧ ∀ cause, ¬ Offends tokens t cause := by
  obtain ⟨hproper, hsound⟩ := completable_iff.1 h
  by_cases hend : t = .endOfInput
  · subst hend
    rw [Viable, isProgram_iff h]
    constructor
    · intro hdepth
      refine ⟨fun hne => absurd rfl hne, ?_⟩
      rintro cause ⟨⟩
      contradiction
    · rintro ⟨-, hends⟩
      by_contra hdepth
      exact hends _ (.ending hdepth)
  · have hviable : Viable tokens t ↔ Completable (tokens ++ [t]) := by
      cases t with
      | endOfInput => exact absurd rfl hend
      | opening | closing | int | string | symbol | keyword => rfl
    rw [hviable, completable_iff, sound_concat_iff]
    constructor
    · rintro ⟨hall, -, ht⟩
      exact ⟨fun _ => hall t (by simp), ht⟩
    · rintro ⟨hspelled, ht⟩
      refine ⟨?_, hsound, ht⟩
      simpa [or_imp, forall_and] using ⟨hproper, hspelled hend⟩

/-! ## Kinds of tokens -/

/-- A token of each kind, to stand for the others. -/
def sample : Kind → Token
  | .endOfInput => .endOfInput
  | .opening => .opening
  | .closing => .closing
  | .int => .int "0"
  | .string => .string ""
  | .symbol => .symbol "x"
  | .keyword => .keyword ""

/-- **The kinds of the tokens that may come next**: a list can only be closed if one is open, and
    the input can only end if none is. -/
theorem exists_viable_iff (h : Completable tokens) (kind : Kind) :
    (∃ t, t.kind = kind ∧ Viable tokens t) ↔
      (kind = .closing → depth tokens ≠ 0) ∧ (kind = .endOfInput → depth tokens = 0) := by
  constructor
  · rintro ⟨t, rfl, hviable⟩
    obtain ⟨-, hsound⟩ := (viable_iff h).1 hviable
    constructor
    · intro hkind hdepth
      obtain rfl : t = .closing := by cases t <;> simp_all [Token.kind]
      exact hsound _ (.stray hdepth)
    · intro hkind
      obtain rfl : t = .endOfInput := by cases t <;> simp_all [Token.kind]
      by_contra hdepth
      exact hsound _ (.ending hdepth)
  · rintro ⟨hcloses, hends⟩
    refine ⟨sample kind, by cases kind <;> rfl, (viable_iff h).2 ⟨?_, ?_⟩⟩
    · cases kind <;> decide
    · intro cause hoffends
      cases kind with
      | opening | string | symbol | keyword => cases hoffends
      | closing =>
        obtain ⟨hdepth⟩ := hoffends
        exact hcloses rfl hdepth
      | endOfInput =>
        obtain ⟨⟩ | ⟨hdepth⟩ := hoffends
        exact hdepth (hends rfl)
      | int =>
        obtain ⟨⟩ | ⟨⟩ | ⟨⟨-, -, hk⟩, hlarge⟩ := hoffends
        have hzero : Nat.ofDigitChars 10 "0".toList 0 = 0 := by decide
        omega

/-- **The kinds that a message names are those of the tokens that may come next.** -/
theorem mem_expected_iff {expected : List Kind} (h : Completable tokens)
    (hoffends : Offends tokens t (.unexpectedToken t expected)) (kind : Kind) :
    kind ∈ expected ↔ ∃ s, s.kind = kind ∧ Viable tokens s := by
  rw [exists_viable_iff h]
  cases hoffends with
  | stray hdepth => cases kind <;> simp [programKinds, hdepth]
  | ending hdepth => cases kind <;> simp [listKinds, hdepth]

/-- A message names each kind once, and never that of the token itself. -/
theorem nodup_expected {expected : List Kind}
    (h : Offends tokens t (.unexpectedToken t expected)) :
    expected.Nodup ∧ t.kind ∉ expected := by
  cases h with
  | stray => exact ⟨by decide, by decide⟩
  | ending => exact ⟨by decide, by decide⟩

end SmtDialogue.Assembly
