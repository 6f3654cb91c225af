/-
  What holds all through a session.

  * `Carried`: what each passage of a session is;
  * `passages_invariant`, `story_invariant`: what every call keeps holds in front of each passage
    and behind it.
-/
import SmtDialogue.Proofs.Pairing

namespace SmtDialogue.Session

variable {σ : Type} [Sink σ] {I : List (Passage σ) → Session σ → Prop} {past : List (Passage σ)}
  {s : Session σ} {calls : List Call} {k : Nat} {p : Passage σ} {sink : σ} {replies : Reader}

/-- The call that opens a session is a passage as any other, but that the session is closed if it
    fails. -/
theorem opening_cases (sink : σ) (replies : Reader) :
    let p := passage { sink, replies } greeting
    (opening sink replies = p ∧ ∃ a, p.outcome = .answer a) ∨
      opening sink replies = { p with after := p.after.close } := by
  intro p
  have hp : p = ⟨{ sink, replies }, greeting, (perform greeting { sink, replies }).1,
      (perform greeting { sink, replies }).2⟩ := rfl
  rw [opening, hp]
  rcases start_cases sink replies with ⟨a, opened, hperform, hstart⟩ | ⟨e, left, hperform, hstart⟩
  · refine Or.inl ⟨?_, a, ?_⟩
    · rw [hstart, hperform]
    · rw [hperform]
  · exact Or.inr (by rw [hstart, hperform])

/-- A passage of a session is a call that is carried out. The first one may end with the session
    closed. -/
structure Carried (k : Nat) (p : Passage σ) : Prop where
  held : p.before.holdsReplies = p.before.holdsSink
  outcome : p.outcome = (p.before.perform p.call).1
  after : (p.after = (p.before.perform p.call).2 ∧ (k = 0 → ∃ a, p.outcome = .answer a)) ∨
    k = 0 ∧ p.after = (p.before.perform p.call).2.close

theorem Carried.eq_passage (h : Carried k p) (hk : 0 < k) : p = p.before.passage p.call := by
  obtain ⟨before, call, outcome, after⟩ := p
  obtain ⟨-, houtcome, ⟨hafter, -⟩ | ⟨hzero, -⟩⟩ := h
  · dsimp only at houtcome hafter
    rw [passage, houtcome, hafter]
  · exact absurd hzero (Nat.ne_of_gt hk)

/-- What a call keeps, `I` telling of the passages so far and of the session behind them. -/
def Keeps (I : List (Passage σ) → Session σ → Prop) : Prop :=
  ∀ past (s : Session σ) call, s.holdsReplies = s.holdsSink → I past s →
    I (past ++ [s.passage call]) (s.perform call).2

theorem passages_invariant (hstep : Keeps I) (hheld : s.holdsReplies = s.holdsSink) (h : I past s)
    (hp : (s.passages calls)[k]? = some p) :
    p = p.before.passage p.call ∧ p.before.holdsReplies = p.before.holdsSink ∧
      I (past ++ (s.passages calls).take k) p.before ∧
      I (past ++ (s.passages calls).take (k + 1)) p.after := by
  induction calls generalizing s past k with
  | nil => simp [passages] at hp
  | cons call calls ih =>
    have hafter := hstep past s call hheld h
    rw [passages] at hp ⊢
    cases k with
    | zero =>
      obtain rfl := Option.some.inj hp
      rw [List.take_zero, List.append_nil]
      exact ⟨rfl, hheld, h, hafter⟩
    | succ k =>
      rw [List.getElem?_cons_succ] at hp
      have hlater := ih (held_perform hheld call) hafter hp
      simpa only [List.take_succ_cons, List.append_assoc, List.singleton_append] using hlater

/-- **What every call keeps holds all through a session**, if closing keeps it as well. -/
theorem story_invariant (hfresh : I [] { sink, replies }) (hstep : Keeps I)
    (hclose : ∀ past (p : Passage σ), I (past ++ [p]) p.after →
      I (past ++ [{ p with after := p.after.close }]) p.after.close)
    (hp : (story sink replies calls)[k]? = some p) :
    Carried k p ∧ I ((story sink replies calls).take k) p.before ∧
      I ((story sink replies calls).take (k + 1)) p.after := by
  have hgreets : I [passage { sink, replies } greeting] _ := hstep [] _ greeting rfl hfresh
  have hopened : I [opening sink replies] (opening sink replies).after := by
    rcases opening_cases sink replies with ⟨hopening, -⟩ | hopening
    · rw [hopening]
      exact hgreets
    · rw [hopening]
      exact hclose [] _ hgreets
  cases k with
  | zero =>
    obtain rfl := Option.some.inj hp
    refine ⟨?_, hfresh, hopened⟩
    rcases opening_cases sink replies with ⟨hopening, hanswer⟩ | hopening
    · rw [hopening]
      exact ⟨rfl, rfl, Or.inl ⟨rfl, fun _ => hanswer⟩⟩
    · rw [hopening]
      exact ⟨rfl, rfl, Or.inr ⟨rfl, rfl⟩⟩
  | succ k =>
    rw [story, List.getElem?_cons_succ] at hp
    obtain ⟨hpassage, hheld, hbefore, hafter⟩ :=
      passages_invariant hstep (held_start sink replies) hopened hp
    refine ⟨⟨hheld, ?_, Or.inl ⟨?_, by simp⟩⟩, hbefore, hafter⟩
    · rw [hpassage]
      rfl
    · rw [hpassage]
      rfl

end SmtDialogue.Session
