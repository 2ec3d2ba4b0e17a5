import CrdtDoc.Proofs.SessionCommands

/-
  This file shows that a slot is sent as a whole or not at
  all, whatever a transport does with commands.  A slot that
  holds no handle, or one that leads to no entry, exchanges
  nothing; any other exchanges one update for an answer.
  Unless that is the answer to an update, the slot stays as
  it was and sends the same update again; else nothing of it
  is unsent.

  Key definitions include:
    * `Exchange`
    * `Transport.noting`
    * `Slot.exchanges`
    * `HandleKind.HasNothingPending`
    * `HandleKind.Takes`
    * `Slot.ComesTo`

  Main declarations:
    * `HandleKind.takes_send`
    * `Slot.comesTo_send`
    * `Slot.allOrNothing_of_send`
-/

namespace CrdtDoc

------------------------------------------------------------
-- Exchanges
------------------------------------------------------------

/- A command that reached a transport, and what came of it. -/
structure Exchange where
  command : Command
  answer : Except Abort (Except TransportError Response)

/- The transport that also notes what it exchanges. -/
def Transport.noting
    {σ : Type}
    (transport : Transport σ) :
    Transport (σ × List Exchange) :=
  fun command => ExceptT.mk fun (state, exchanges) =>
    let (answer, state) := (transport command).run state
    (answer, (state, exchanges ++ [⟨command, answer⟩]))

/- The session over such a transport. -/
def Session.noting
    {σ : Type}
    (session : Session σ) : Session (σ × List Exchange) :=
  ⟨session.transport.noting, session.config⟩

/- What is exchanged with a transport as a slot is sent. -/
def Slot.exchanges
    {σ : Type}
    {kind : HandleKind}
    (slot : Slot kind)
    (session : Session σ)
    (before : σ) : List Exchange :=
  ((Slot.send kind session.noting).run
    ((before, []), slot)).2.1.2

------------------------------------------------------------
-- Handles
------------------------------------------------------------

namespace HandleKind

/- Nothing that was done with a handle is unsent. -/
def HasNothingPending :
    (kind : HandleKind) → kind.Handle → Prop
  | .counter, handle => Counter.pending handle = .zero
  | .set, handle =>
      SetHandle.adds handle = [] ∧
        SetHandle.removes handle = []
  | .flag, _ => True
  | .register, _ => True

/- Once an update is answered, nothing of it is unsent. -/
theorem hasNothingPending_received
    (kind : HandleKind)
    (handle : kind.Handle)
    (response : Changed) :
    kind.HasNothingPending (kind.received handle response) := by
  cases kind with
  | counter => rfl
  | set => exact ⟨rfl, rfl⟩
  | flag => trivial
  | register => trivial

variable {σ : Type}
variable {kind : HandleKind} {handle : kind.Handle}
variable {inner other : Update}

/- A handle has but one update to send. -/
theorem Sends.unique
    (hSends : kind.Sends handle inner)
    (hOther : kind.Sends handle other) :
    inner = other :=
  Except.ok.inj (hSends.writes.symm.trans hOther.writes)

/- What a handle makes of the answer to its update. -/
inductive Takes
    (kind : HandleKind)
    (handle : kind.Handle) :
    Except Abort (Except TransportError Response) →
      Except Abort (Except Error Unit) → kind.Handle →
      Prop where
  | stopped
      (reason : Abort) :
      Takes kind handle (.error reason) (.error reason) handle
  | refused
      (error : TransportError) :
      Takes kind handle (.ok (.error error))
        (.ok (.error (.transport error))) handle
  | unexpected
      (response : Response)
      (hOther : ∀ changed, response ≠ .changed changed) :
      Takes kind handle (.ok (.ok response))
        (.ok (.error (.transport
          (.unexpectedResponse "update_map" response.name))))
        handle
  | answered
      (response : Changed) :
      Takes kind handle (.ok (.ok (.changed response)))
        (.ok (.ok ())) (kind.received handle response)

/- A handle that leads to an entry takes what is answered. -/
theorem takes_send
    (hValid : (kind.binding handle).IsValid)
    (hSends : kind.Sends handle inner)
    (session : Session σ)
    (before : σ) :
    let sent : Command :=
      .change
        (kind.change handle inner
          (.or .unset session.config.write))
    let answered := (session.transport sent).run before
    let run := (kind.send session).run (before, handle)
    run.2.1 = answered.2 ∧
    kind.Takes handle answered.1 run.1 run.2.2 := by
  intro sent answered run
  have hRun :
      run =
        match (answered.1.map Session.changeResult,
          answered.2) with
        | (.error reason, after) =>
            (.error reason, after, handle)
        | (.ok (.error error), after) =>
            (.ok (.error error), after, handle)
        | (.ok (.ok response), after) =>
            (.ok (.ok ()), after,
              kind.received handle response) := by
    refine
      (run_send_of_validate (hValid.validate kind)
        hSends.command).trans ?_
    rw [Session.run_change_eq]
    rfl
  rw [hRun]
  rcases answered
    with ⟨reason | (error | response), after⟩
  · exact ⟨rfl, .stopped reason⟩
  · exact ⟨rfl, .refused error⟩
  · cases response with
    | changed response => exact ⟨rfl, .answered response⟩
    | fetched response =>
        exact ⟨rfl, .unexpected (.fetched response) nofun⟩
    | deleted => exact ⟨rfl, .unexpected .deleted nofun⟩

end HandleKind

/- A binding without a name is unbound. -/
theorem Binding.validate_of_unbound
    {binding : Binding}
    (hName : binding.name = "")
    (kind : HandleKind) :
    binding.validate kind = .error (.unbound kind) := by
  have hBound : ¬binding.isBound = true := by
    simp [isBound, hName]
  rw [validate, if_pos hBound]

/- A binding with a name needs a complete location. -/
theorem Binding.validate_of_incomplete
    {binding : Binding}
    (hName : binding.name ≠ "")
    (hLocation : ¬binding.path.location.IsComplete)
    (kind : HandleKind) :
    binding.validate kind =
      .error (.invalidKey kind binding.path.location) := by
  have hBound : binding.isBound = true := by
    simp [isBound, hName]
  rw [validate, if_neg (not_not_intro hBound),
    if_pos hLocation]

------------------------------------------------------------
-- Slots
------------------------------------------------------------

namespace Slot

variable {kind : HandleKind}

/-
  All that a slot that is sent can come to: what it exchanges
  with a transport, its result, and the slot afterwards.
-/
inductive ComesTo
    (config : Config) :
    Slot kind → List Exchange →
      Except Abort (Except Error Unit) → Slot kind → Prop where
  | nil :
      ComesTo config none []
        (.ok (.error (.handle (.nil kind)))) none
  | unbound
      (handle : kind.Handle)
      (hName : (kind.binding handle).name = "") :
      ComesTo config (some handle) []
        (.ok (.error (.handle (.unbound kind))))
        (some handle)
  | invalidKey
      (handle : kind.Handle)
      (hName : (kind.binding handle).name ≠ "")
      (hLocation :
        ¬(kind.binding handle).path.location.IsComplete) :
      ComesTo config (some handle) []
        (.ok (.error (.handle
          (.invalidKey kind
            (kind.binding handle).path.location))))
        (some handle)
  | sent
      (handle : kind.Handle)
      (hValid : (kind.binding handle).IsValid)
      (inner : Update)
      (hSends : kind.Sends handle inner)
      {answer : Except Abort (Except TransportError Response)}
      {result : Except Abort (Except Error Unit)}
      {new : kind.Handle}
      (hTakes : kind.Takes handle answer result new) :
      ComesTo config (some handle)
        [⟨.change
            (kind.change handle inner
              (.or .unset config.write)),
          answer⟩]
        result (some new)

variable {σ : Type}

/- A slot whose handle leads to no entry is not sent. -/
theorem run_send_of_invalid
    {handle : kind.Handle}
    {error : HandleError}
    (hValidate :
      (kind.binding handle).validate kind = .error error)
    (session : Session σ)
    (before : σ) :
    (Slot.send kind session).run (before, some handle) =
      (.ok (.error (.handle error)), before, some handle) := by
  change (((kind.send session).run (before, handle)).1,
    ((kind.send session).run (before, handle)).2.1,
    some ((kind.send session).run (before, handle)).2.2) = _
  rw [HandleKind.run_send_of_invalid hValidate]

/- So it exchanges nothing. -/
theorem exchanges_of_invalid
    {handle : kind.Handle}
    {error : HandleError}
    (hValidate :
      (kind.binding handle).validate kind = .error error)
    (session : Session σ)
    (before : σ) :
    exchanges (some handle) session before = [] := by
  rw [exchanges, run_send_of_invalid hValidate]

/- Any other exchanges its update for an answer. -/
theorem exchanges_of_valid
    {handle : kind.Handle}
    (hValid : (kind.binding handle).IsValid)
    {inner : Update}
    (hSends : kind.Sends handle inner)
    (session : Session σ)
    (before : σ) :
    let sent : Command :=
      .change
        (kind.change handle inner
          (.or .unset session.config.write))
    exchanges (some handle) session before =
      [⟨sent, ((session.transport sent).run before).1⟩] := by
  intro sent
  have hNoted :=
    (HandleKind.takes_send hValid hSends session.noting
      (before, [])).1
  exact congrArg Prod.snd hNoted

/- A slot that is sent comes to one of these. -/
theorem comesTo_send
    (slot : Slot kind)
    (session : Session σ)
    (before : σ) :
    let run := (Slot.send kind session).run (before, slot)
    ComesTo session.config slot
      (slot.exchanges session before) run.1 run.2.2 := by
  intro run
  cases slot with
  | none => exact .nil
  | some handle =>
      by_cases hName : (kind.binding handle).name = ""
      · have hValidate :=
          Binding.validate_of_unbound hName kind
        simp only [run, run_send_of_invalid hValidate,
          exchanges_of_invalid hValidate]
        exact .unbound handle hName
      by_cases hLocation :
        (kind.binding handle).path.location.IsComplete
      · have hValid : (kind.binding handle).IsValid :=
          ⟨hName, hLocation⟩
        rcases kind.exists_sends handle with ⟨inner, hSends⟩
        have hTakes :=
          (HandleKind.takes_send hValid hSends session
            before).2
        rw [exchanges_of_valid hValid hSends]
        exact .sent handle hValid inner hSends hTakes
      · have hValidate :=
          Binding.validate_of_incomplete hName hLocation kind
        simp only [run, run_send_of_invalid hValidate,
          exchanges_of_invalid hValidate]
        exact .invalidKey handle hName hLocation

/-
  What is exchanged are the transport's answers, and nothing
  else reaches the transport.
-/
theorem run_send_exchanges
    (slot : Slot kind)
    (session : Session σ)
    (before : σ) :
    let run := (Slot.send kind session).run (before, slot)
    let exchanges := slot.exchanges session before
    run.2.1 =
      Run.afterAll session.transport before
        (exchanges.map Exchange.command) ∧
    ∀ exchange ∈ exchanges,
      exchange.answer =
        ((session.transport exchange.command).run
          before).1 := by
  intro run exchanges
  cases slot with
  | none => exact ⟨rfl, List.forall_mem_nil _⟩
  | some handle =>
      cases hValidate : (kind.binding handle).validate kind with
      | error error =>
          simp only [run, exchanges,
            run_send_of_invalid hValidate,
            exchanges_of_invalid hValidate]
          exact ⟨rfl, List.forall_mem_nil _⟩
      | ok done =>
          have hValid := Binding.isValid_of_validate hValidate
          rcases kind.exists_sends handle
            with ⟨inner, hSends⟩
          have hState :=
            (HandleKind.takes_send hValid hSends session
              before).1
          simp only [exchanges,
            exchanges_of_valid hValid hSends]
          refine ⟨hState, ?_⟩
          intro exchange hExchange
          rw [List.mem_singleton.mp hExchange]

namespace ComesTo

variable {config : Config} {slot new last : Slot kind}
variable {exchanges others : List Exchange}
variable {result : Except Abort (Except Error Unit)}
variable {other : Except Abort (Except Error Unit)}

/- A slot that is not sent with success stays as it was. -/
theorem eq_of_failed
    (hComes : ComesTo config slot exchanges result new)
    (hFailed : result ≠ .ok (.ok ())) :
    new = slot := by
  cases hComes with
  | nil => rfl
  | unbound handle hName => rfl
  | invalidKey handle hName hLocation => rfl
  | sent handle hValid inner hSends hTakes =>
      cases hTakes with
      | stopped reason => rfl
      | refused error => rfl
      | unexpected response hOther => rfl
      | answered response => exact absurd rfl hFailed

/- Nothing is unsent of a slot that is sent with success. -/
theorem exists_hasNothingPending
    (hComes :
      ComesTo config slot exchanges (.ok (.ok ())) new) :
    ∃ handle,
      new = some handle ∧ kind.HasNothingPending handle := by
  cases hComes with
  | sent handle hValid inner hSends hTakes =>
      cases hTakes with
      | answered response =>
          exact
            ⟨_, rfl,
              kind.hasNothingPending_received handle response⟩

/- A handle that is sent is kept, or receives an answer. -/
theorem eq_or_received
    {handle kept : kind.Handle}
    (hComes :
      ComesTo config (some handle) exchanges result
        (some kept)) :
    kept = handle ∨
      ∃ command response,
        ⟨command, .ok (.ok (.changed response))⟩ ∈
          exchanges ∧
        kept = kind.received handle response := by
  cases hComes with
  | unbound _ hName => exact Or.inl rfl
  | invalidKey _ hName hLocation => exact Or.inl rfl
  | sent _ hValid inner hSends hTakes =>
      cases hTakes with
      | stopped reason => exact Or.inl rfl
      | refused error => exact Or.inl rfl
      | unexpected response hOther => exact Or.inl rfl
      | answered response =>
          exact Or.inr
            ⟨_, response, List.mem_singleton_self _, rfl⟩

/- The commands of a slot depend on the slot alone. -/
theorem commands_eq
    (hComes : ComesTo config slot exchanges result new)
    (hOther : ComesTo config slot others other last) :
    others.map Exchange.command =
      exchanges.map Exchange.command := by
  cases hComes with
  | nil =>
      cases hOther
      rfl
  | unbound handle hName =>
      cases hOther with
      | sent _ hValid _ _ _ => exact absurd hName hValid.name
      | unbound _ _ => rfl
      | invalidKey _ _ _ => rfl
  | invalidKey handle hName hLocation =>
      cases hOther with
      | sent _ hValid _ _ _ =>
          exact absurd hValid.location hLocation
      | unbound _ _ => rfl
      | invalidKey _ _ _ => rfl
  | sent handle hValid inner hSends hTakes =>
      cases hOther with
      | sent _ _ again hAgain _ =>
          rw [hAgain.unique hSends]
          rfl
      | unbound _ hName => exact absurd hName hValid.name
      | invalidKey _ _ hLocation =>
          exact absurd hValid.location hLocation

end ComesTo

/-
  A slot that is sent over any transport is sent as a whole
  or not at all.  It comes to one of the outcomes above, and
  nothing reaches the transport but what it exchanges.  If it
  fails, it stays as it was, and sends the same commands
  whenever it is sent again; and if not, nothing is unsent.
-/
theorem allOrNothing_of_send
    (slot : Slot kind)
    (session : Session σ)
    (before : σ) :
    let run := (Slot.send kind session).run (before, slot)
    let exchanges := slot.exchanges session before
    ComesTo session.config slot exchanges run.1 run.2.2 ∧
    (run.2.1 =
        Run.afterAll session.transport before
          (exchanges.map Exchange.command) ∧
      ∀ exchange ∈ exchanges,
        exchange.answer =
          ((session.transport exchange.command).run
            before).1) ∧
    (run.1 ≠ .ok (.ok ()) →
      run.2.2 = slot ∧
      ∀ later,
        (run.2.2.exchanges session later).map
            Exchange.command =
          exchanges.map Exchange.command) ∧
    (run.1 = .ok (.ok ()) →
      ∃ handle,
        run.2.2 = some handle ∧
        kind.HasNothingPending handle) := by
  intro run exchanges
  have hComes := slot.comesTo_send session before
  refine
    ⟨hComes, slot.run_send_exchanges session before, ?_, ?_⟩
  · intro hFailed
    have hKept := hComes.eq_of_failed hFailed
    refine ⟨hKept, ?_⟩
    intro later
    rw [hKept]
    exact
      hComes.commands_eq (slot.comesTo_send session later)
  · intro hDone
    have hAnswered :
        ComesTo session.config slot exchanges (.ok (.ok ()))
          run.2.2 :=
      hDone ▸ hComes
    exact hAnswered.exists_hasNothingPending

end Slot

end CrdtDoc
