/-
  What requests are answered and what calls bring, the replies being values.

  * `Request.expected` is the answer to a request, told from the reply alone;
  * `answer_eq_expected`: the answer that is read is the expected one;
  * `expected_eq_ok_iff`: what asks for nothing is carried out exactly if it is
    acknowledged;
  * `Call.expected` is what a call brings, told from the reply to its request alone.
-/
import SmtDialogue.Session.Basic

namespace SmtDialogue

namespace Request

/-- The answer to a request. A solver may report an error instead of answering, but the reply
    to a raw command is the answer, whatever it is. -/
def expected (request : Request) (reply : Sexp) : Except SessionError Answer :=
  match request, reply with
  | raw _, reply => .ok (.reply reply)
  | _, .list [.symbol "error", .str message] => .error (.server message)
  | checkSat, .symbol "sat" => .ok (.verdict .sat)
  | checkSat, .symbol "unsat" => .ok (.verdict .unsat)
  | checkSat, .symbol "unknown" => .ok (.verdict .unknown)
  | checkSat, reply => .error (.protocol checkSat.command reply)
  | getModel, reply =>
    match Model.ofReply? reply with
    | some reading => .ok (.model reading)
    | none => .error (.protocol getModel.command reply)
  | _, .symbol "success" => .ok .done
  | request, reply => .error (.protocol request.command reply)

/-- The request asks for nothing but to be acknowledged. -/
def Acknowledged : Request → Prop
  | raw _ | checkSat | getModel => False
  | declareConst _ _ | declareFun _ _ _ | assertTerm _ | push | pop | setLogic _ | setOption _ _
  | exit => True

theorem isSymbol_iff {name : String} {x : Sexp} : x.isSymbol name ↔ x = .symbol name := by
  cases x <;> simp [Sexp.isSymbol, Sexp.symbol?]

theorem serverError?_eq_some_iff {reply : Sexp} {message : String} :
    serverError? reply = some message ↔ reply = .list [.symbol "error", .str message] := by
  unfold serverError?
  split
  · rename_i head text
    by_cases hhead : head.isSymbol "error"
    · simp [isSymbol_iff.1 hhead, Sexp.isSymbol, Sexp.symbol?]
    · have hne : head ≠ .symbol "error" := fun h => hhead (isSymbol_iff.2 h)
      simp [hhead, hne]
  · rename_i hform
    simpa using fun h => hform _ _ h

theorem reported?_eq_none {request : Request} {reply : Sexp}
    (h : ∀ message, reply ≠ .list [.symbol "error", .str message]) :
    request.reported? reply = none := by
  have hnone : serverError? reply = none :=
    Option.eq_none_iff_forall_ne_some.2 fun message hsome =>
      h message (serverError?_eq_some_iff.1 hsome)
  cases request <;> first | rfl | exact hnone

theorem answer_of_meaning {request : Request} {reply : Sexp} {a : Answer}
    (hreported : request.reported? reply = none) (h : request.meaning? reply = some a) :
    request.answer reply = .ok a := by
  rw [answer, hreported, h]

theorem answer_of_no_meaning {request : Request} {reply : Sexp}
    (hreported : request.reported? reply = none) (h : request.meaning? reply = none) :
    request.answer reply = .error (.protocol request.command reply) := by
  rw [answer, hreported, h]

/-- **The answer that is read is the expected one.** -/
theorem answer_eq_expected (request : Request) (reply : Sexp) :
    request.answer reply = request.expected reply := by
  fun_cases expected request reply with
  | case1 => rfl
  | case2 request message hraw =>
    have hreported : request.reported? (.list [.symbol "error", .str message]) = some message := by
      cases request with
      | raw x => exact (hraw x rfl).elim
      | _ => exact serverError?_eq_some_iff.2 rfl
    rw [answer, hreported]
  | case3 | case4 | case5 => rfl
  | case6 reply herror hsat hunsat hunknown =>
    refine answer_of_no_meaning (reported?_eq_none herror) ?_
    cases reply with
    | symbol name =>
      simp only [Sexp.symbol.injEq] at hsat hunsat hunknown
      simp [meaning?, Sexp.symbol?, Verdict.ofSymbol?, Verdict.symbol, Ne.symm hsat,
        Ne.symm hunsat, Ne.symm hunknown]
    | _ => rfl
  | case7 reply herror reading hreading =>
    exact answer_of_meaning (reported?_eq_none herror) (by rw [meaning?, hreading]; rfl)
  | case8 reply herror hreading =>
    exact answer_of_no_meaning (reported?_eq_none herror) (by rw [meaning?, hreading]; rfl)
  | case9 request hraw hcheck hmodel =>
    cases request with
    | raw x => exact (hraw x rfl).elim
    | checkSat => exact (hcheck rfl).elim
    | getModel => exact (hmodel rfl).elim
    | _ => rfl
  | case10 request reply hraw herror _ _ _ hcheck hmodel hsuccess =>
    have hno : ¬ reply.isSymbol "success" := fun h => hsuccess (isSymbol_iff.1 h)
    refine answer_of_no_meaning (reported?_eq_none herror) ?_
    cases request with
    | raw x => exact (hraw x rfl).elim
    | checkSat => exact (hcheck rfl).elim
    | getModel => exact (hmodel rfl).elim
    | _ => simp [meaning?, hno]

theorem expected_ne_closed (request : Request) (reply : Sexp) :
    request.expected reply ≠ .error .closed := by
  fun_cases expected request reply <;> simp

/-- **What asks for nothing is carried out exactly if it is acknowledged.** -/
theorem expected_eq_ok_iff {request : Request} (h : request.Acknowledged) {reply : Sexp}
    {a : Answer} :
    request.expected reply = .ok a ↔ reply = .symbol "success" ∧ a = .done := by
  rw [← answer_eq_expected]
  have hmeaning : request.meaning? reply =
      if reply.isSymbol "success" then some .done else none := by
    cases request with
    | raw | checkSat | getModel => exact h.elim
    | _ => rfl
  by_cases hsuccess : reply = .symbol "success"
  · subst hsuccess
    rw [answer_of_meaning (reported?_eq_none (by simp)) hmeaning]
    simp [eq_comm]
  · have hno : ¬ reply.isSymbol "success" := fun hsymbol => hsuccess (isSymbol_iff.1 hsymbol)
    rw [if_neg hno] at hmeaning
    unfold answer
    rw [hmeaning]
    split <;> simp_all

end Request

/-! ## Calls as values -/

theorem Outcome.ofResult_eq_answer_iff {result : Except SessionError Answer} {a : Answer} :
    ofResult result = .answer a ↔ result = .ok a := by
  cases result <;> simp [ofResult]

namespace Call

/-- The request that a call makes. -/
def request? : Call → Option Request
  | ask request => some request
  | push => some .push
  | exit => some .exit
  | close => none

/-- The session is over behind the call. -/
def Leaves : Call → Prop
  | ask _ | push => False
  | exit | close => True

theorem eq_close_of_request? {call : Call} (h : call.request? = none) : call = .close := by
  cases call with
  | ask | push | exit => simp [request?] at h
  | close => rfl

theorem exists_request_of_not_leaves {call : Call} (h : ¬ call.Leaves) :
    ∃ request, call.request? = some request := by
  cases call with
  | ask request => exact ⟨request, rfl⟩
  | push => exact ⟨.push, rfl⟩
  | exit | close => exact absurd trivial h

/-- What a call brings, given the reply to its request. -/
def expected : Call → Sexp → Outcome
  | ask request, reply => .ofResult (request.expected reply)
  | push, reply =>
    match Request.push.expected reply with
    | .ok a => .answer a
    | .error e => .abort ("unable to push an assertion scope: " ++ e.message)
  | exit, reply => .ofResult (Request.exit.expected reply)
  | close, _ => .answer .done

end Call

end SmtDialogue
