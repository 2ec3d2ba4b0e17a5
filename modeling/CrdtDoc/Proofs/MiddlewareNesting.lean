import CrdtDoc.Proofs.FailedCommands
import CrdtDoc.Proofs.NotedCommands

/-
  This file shows how the middleware of a bucket nests
  around its commands.  Steps are entered in their order, up
  to the first one that does not pass the request on, and
  are left in the reverse order.  A command is run once if
  all steps pass its request on, and not at all otherwise.

  What happens is noted by the steps, the command and the
  transport themselves, behind the state that they have.

  Key definitions include:
    * `Middleware.noted`
    * `Middleware.passing`
    * `Middleware.entering`
    * `Middleware.leaving`
    * `Middleware.Nests`
    * `Call.request?`

  Main declarations:
    * `Middleware.chain_append`
    * `Middleware.onFirst_chain`
    * `Middleware.nests_chain`
    * `Call.exists_nests`
    * `Middleware.nests_in_order`
-/

namespace CrdtDoc

------------------------------------------------------------
-- Notes
------------------------------------------------------------

/- The computation that notes that it is run. -/
def Run.noted
    {σ τ α : Type}
    (run : Run (σ × τ) α) : Run ((σ × List Note) × τ) α :=
  ExceptT.mk fun ((state, notes), own) =>
    Note.beside (notes ++ [.ran]) (run.run (state, own))

namespace Middleware

variable {σ τ : Type}

/- What is made of a result, noting that a step is left. -/
def notedFinish
    (position : Nat)
    (finish :
      Except Error Outcome → Run σ (Except Error Outcome))
    (result : Except Error Outcome) :
    Run (σ × List Note) (Except Error Outcome) := do
  let result ← Run.onFirst (finish result)
  Run.note (.left position)
  return result

/- The step that notes when it is entered and left. -/
def noted
    (position : Nat)
    (step : Middleware σ) : Middleware (σ × List Note) :=
  fun request => do
    Run.note (.entered position request)
    match ← Run.onFirst (step request) with
    | .answer result => do
        Run.note (.left position)
        return .answer result
    | .pass finish =>
        return .pass (notedFinish position finish)

/- The steps that note their positions, from a first one. -/
def notedFrom :
    Nat → List (Middleware σ) →
      List (Middleware (σ × List Note))
  | _, [] => []
  | position, step :: rest =>
      noted position step :: notedFrom (position + 1) rest

end Middleware

/- The bucket with such middleware. -/
def Bucket.noted
    {σ : Type}
    (bucket : Bucket σ) : Bucket (σ × List Note) :=
  ⟨bucket.name, bucket.type,
    Middleware.notedFrom 0 bucket.middleware⟩

namespace Middleware

variable {σ τ : Type}

------------------------------------------------------------
-- Nesting
------------------------------------------------------------

/-
  How many steps pass a request on, one after the other, up
  to the first one that does not.
-/
def passing
    (request : Request) : List (Middleware σ) → σ → Nat
  | [], _ => 0
  | step :: rest, state =>
      match (step request).run state with
      | (.ok (.pass _), after) =>
          passing request rest after + 1
      | _ => 0

/- The positions of the steps that are entered. -/
def entries
    (position count length : Nat) : List Nat :=
  List.range' position (min (count + 1) length)

/-
  The notes on the way to a command: the steps up to the
  first one that does not pass the request on, or all of
  them and what the command notes.
-/
def entering
    (request : Request)
    (position count length : Nat)
    (command : List Note) : List Note :=
  (entries position count length).map (.entered · request) ++
    if count = length then command else []

/- The notes on the way back, in the reverse order. -/
def leaving
    (position count length : Nat) : List Note :=
  (entries position count length).reverse.map .left

/-
  A run with notes comes to what another one comes to, and
  adds some notes to those before: all that it should add,
  but for the last of them if it stopped for good.
-/
structure Nests
    {α : Type}
    (noted : Except Abort α × (σ × List Note) × τ)
    (plain : Except Abort α × σ × τ)
    (before entering leaving : List Note) : Prop where
  result : noted.1 = plain.1
  state : noted.2.1.1 = plain.2.1
  own : noted.2.2 = plain.2.2
  notes :
    ∃ done,
      done <+: leaving ∧
      noted.2.1.2 = before ++ entering ++ done ∧
      ∀ value, plain.1 = .ok value → done = leaving

variable {request : Request} {steps : List (Middleware σ)}

/- Middleware after other middleware is within it. -/
theorem chain_append
    {m : Type → Type}
    [Monad m]
    (lift : {α : Type} → Run σ α → m α)
    (request : Request)
    (command : m (Except Error Outcome))
    (first second : List (Middleware σ)) :
    chain lift request command (first ++ second) =
      chain lift request
        (chain lift request command second) first := by
  induction first with
  | nil => rfl
  | cons step rest ih =>
      rw [List.cons_append, chain, chain, ih]

/- A command without a part of its own is within the same. -/
theorem onFirst_chain
    (request : Request)
    (command : Run σ (Except Error Outcome))
    (steps : List (Middleware σ)) :
    Run.onFirst (chain id request command steps) =
      (chain Run.onFirst request (Run.onFirst command) steps :
        Run (σ × τ) (Except Error Outcome)) := by
  induction steps with
  | nil => rfl
  | cons step rest ih =>
      rw [chain, chain, id, Run.onFirst_bind, ← ih]
      congr
      funext found
      cases found with
      | answer result => rfl
      | pass finish => exact Run.onFirst_bind _ _

/- What a step makes of what all behind it came to. -/
def finishing
    (finish :
      Except Error Outcome → Run σ (Except Error Outcome)) :
    Except Abort (Except Error Outcome) × σ × τ →
      Except Abort (Except Error Outcome) × σ × τ
  | (.error reason, later) => (.error reason, later)
  | (.ok result, later) =>
      (Run.onFirst (finish result)).run later

/- What a step and all behind it come to. -/
theorem run_chain_cons
    (request : Request)
    (command : Run (σ × τ) (Except Error Outcome))
    (step : Middleware σ)
    (rest : List (Middleware σ))
    (state : σ)
    (own : τ) :
    (chain Run.onFirst request command (step :: rest)).run
        (state, own) =
      match (step request).run state with
      | (.error reason, after) => (.error reason, after, own)
      | (.ok (.answer result), after) =>
          (.ok result, after, own)
      | (.ok (.pass finish), after) =>
          finishing finish
            ((chain Run.onFirst request command rest).run
              (after, own)) := by
  rw [chain, Run.run_bind, Run.run_onFirst]
  rcases (step request).run state
    with ⟨reason | (result | finish), after⟩
  · rfl
  · rfl
  · change (chain Run.onFirst request command rest >>=
      fun result => Run.onFirst (finish result)).run _ = _
    rw [Run.run_bind]
    simp only
    rcases (chain Run.onFirst request command rest).run
        (after, own)
      with ⟨reason | result, later⟩ <;> rfl

/- A step leaves alone what is not its own. -/
theorem own_finishing
    (finish :
      Except Error Outcome → Run σ (Except Error Outcome))
    (plain : Except Abort (Except Error Outcome) × σ × τ) :
    (finishing finish plain).2.2 = plain.2.2 := by
  rcases plain with ⟨reason | result, later⟩ <;> rfl

/- What a step comes to that notes what it does. -/
theorem run_noted
    (position : Nat)
    (step : Middleware σ)
    (request : Request)
    (state : σ)
    (notes : List Note) :
    (noted position step request).run (state, notes) =
      match (step request).run state with
      | (.error reason, after) =>
          (.error reason, after,
            notes ++ [.entered position request])
      | (.ok (.answer result), after) =>
          (.ok (.answer result), after,
            notes ++ [.entered position request] ++
              [.left position])
      | (.ok (.pass finish), after) =>
          (.ok (.pass (notedFinish position finish)), after,
            notes ++ [.entered position request]) := by
  change (Run.onFirst (step request) >>= _).run
    (state, notes ++ [.entered position request]) = _
  rw [Run.run_bind, Run.run_onFirst]
  rcases (step request).run state
    with ⟨reason | (result | finish), after⟩ <;> rfl

/- What a step makes of a result, noting that it is left. -/
theorem run_notedFinish
    (position : Nat)
    (finish :
      Except Error Outcome → Run σ (Except Error Outcome))
    (result : Except Error Outcome)
    (state : σ)
    (notes : List Note) :
    (notedFinish position finish result).run (state, notes) =
      match (finish result).run state with
      | (.error reason, after) =>
          (.error reason, after, notes)
      | (.ok made, after) =>
          (.ok made, after, notes ++ [.left position]) := by
  rw [notedFinish, Run.run_bind, Run.run_onFirst]
  rcases (finish result).run state
    with ⟨reason | made, after⟩ <;> rfl

/- The first step is entered if there is one. -/
theorem entries_succ
    (position count length : Nat) :
    entries position (count + 1) (length + 1) =
      position :: entries (position + 1) count length := by
  rw [entries, Nat.add_min_add_right, List.range'_succ,
    entries]

/- The first step is entered before all others. -/
theorem entering_succ
    (request : Request)
    (position count length : Nat)
    (command : List Note) :
    entering request position (count + 1) (length + 1)
        command =
      .entered position request ::
        entering request (position + 1) count length
          command := by
  simp [entering, entries_succ]

/- The first step is left after all others. -/
theorem leaving_succ
    (position count length : Nat) :
    leaving position (count + 1) (length + 1) =
      leaving (position + 1) count length ++
        [.left position] := by
  simp [leaving, entries_succ]

/- If the first step does not pass, only it is entered. -/
theorem entering_zero
    (request : Request)
    (position length : Nat)
    (command : List Note) :
    entering request position 0 (length + 1) command =
      [.entered position request] := by
  simp [entering, entries]

/- What a command would note is not, unless it is reached. -/
theorem entering_congr
    {position count length : Nat}
    {command other : List Note}
    (hNotes : count = length → command = other) :
    entering request position count length command =
      entering request position count length other := by
  by_cases hAll : count = length
  · rw [hNotes hAll]
  · rw [entering, entering, if_neg hAll, if_neg hAll]

/- If the first step does not pass, only it is left. -/
theorem leaving_zero
    (position length : Nat) :
    leaving position 0 (length + 1) = [.left position] := by
  simp [leaving, entries]

/- A step that passes a request on is around all behind it. -/
theorem Nests.around
    {inner : Except Abort (Except Error Outcome) ×
      (σ × List Note) × τ}
    {plain : Except Abort (Except Error Outcome) × σ × τ}
    {before entering leaving : List Note}
    {position : Nat}
    (hInner :
      Nests inner plain
        (before ++ [.entered position request])
        entering leaving)
    (finish :
      Except Error Outcome → Run σ (Except Error Outcome)) :
    Nests (finishing (notedFinish position finish) inner)
      (finishing finish plain) before
      (.entered position request :: entering)
      (leaving ++ [.left position]) := by
  rcases hInner
    with ⟨hResult, hState, hOwn, done, hPrefix, hNotes, hAll⟩
  rcases inner with ⟨answer, ⟨state, notes⟩, own⟩
  rcases plain with ⟨result, after, last⟩
  simp only at hResult hState hOwn hNotes hAll
  subst hResult hState hOwn hNotes
  have hLonger : done <+: leaving ++ [.left position] :=
    hPrefix.trans (List.prefix_append _ _)
  cases answer with
  | error reason =>
      simp only [finishing]
      exact ⟨rfl, rfl, rfl, done, hLonger, by simp, nofun⟩
  | ok value =>
      simp only [finishing, Run.run_onFirst, run_notedFinish]
      rcases (finish value).run state
        with ⟨reason | made, later⟩
      · exact ⟨rfl, rfl, rfl, done, hLonger, by simp, nofun⟩
      · refine ⟨rfl, rfl, rfl, leaving ++ [.left position],
          List.prefix_refl _, ?_, fun _ _ => rfl⟩
        simp [hAll value rfl]

/-
  Steps that note what they do come to what they come to
  otherwise, and note that they nest around a command that
  takes notes if it is reached.
-/
theorem nests_chain
    {IsNoted : List Note → Prop}
    {inner : Run ((σ × List Note) × τ) (Except Error Outcome)}
    {command : Run (σ × τ) (Except Error Outcome)}
    (hInner : Run.Notes IsNoted inner command)
    (steps : List (Middleware σ))
    (state : σ)
    (own : τ)
    (position : Nat)
    (notes : List Note) :
    let count := passing request steps state
    ∃ added,
      (count = steps.length → IsNoted added) ∧
      Nests
        ((chain Run.onFirst request inner
          (notedFrom position steps)).run
            ((state, notes), own))
        ((chain Run.onFirst request command steps).run
          (state, own))
        notes
        (entering request position count steps.length added)
        (leaving position count steps.length) := by
  induction steps generalizing state position notes with
  | nil =>
      rcases hInner state own notes with ⟨added, hAdded, hRun⟩
      refine ⟨added, fun _ => hAdded, ?_⟩
      rw [notedFrom, chain, chain, hRun]
      exact ⟨rfl, rfl, rfl, [], List.nil_prefix,
        (List.append_nil _).symm, fun _ _ => rfl⟩
  | cons step rest ih =>
      intro count
      rw [notedFrom, run_chain_cons, run_chain_cons, run_noted]
      rcases hStep : (step request).run state
        with ⟨reason | (result | finish), after⟩
      · have hCount : count = 0 := by
          simp [count, passing, hStep]
        rw [hCount, List.length_cons]
        refine ⟨[], nofun, ?_⟩
        rw [entering_zero, leaving_zero]
        exact ⟨rfl, rfl, rfl, [], List.nil_prefix, by simp,
          nofun⟩
      · have hCount : count = 0 := by
          simp [count, passing, hStep]
        rw [hCount, List.length_cons]
        refine ⟨[], nofun, ?_⟩
        rw [entering_zero, leaving_zero]
        exact ⟨rfl, rfl, rfl, [.left position],
          List.prefix_refl _, rfl, fun _ _ => rfl⟩
      · have hCount :
            count = passing request rest after + 1 := by
          simp [count, passing, hStep]
        rcases ih after (position + 1)
            (notes ++ [.entered position request])
          with ⟨added, hAdded, hRest⟩
        rw [hCount, List.length_cons]
        refine ⟨added, fun hAll => hAdded (Nat.succ.inj hAll),
          ?_⟩
        rw [entering_succ, leaving_succ]
        exact hRest.around finish

/- Where a step does not pass, a command's own part stays. -/
theorem own_of_passing_lt
    {command : Run (σ × τ) (Except Error Outcome)}
    {state : σ}
    {own : τ}
    (hPassing : passing request steps state < steps.length) :
    ((chain Run.onFirst request command steps).run
      (state, own)).2.2 = own := by
  induction steps generalizing state with
  | nil => cases hPassing
  | cons step rest ih =>
      rw [run_chain_cons]
      rw [passing, List.length_cons] at hPassing
      rcases hStep : (step request).run state
        with ⟨reason | (result | finish), after⟩
      · rfl
      · rfl
      · rw [hStep] at hPassing
        have hRest := ih (Nat.lt_of_succ_lt_succ hPassing)
        exact (own_finishing finish _).trans hRest

/-
  A command that notes what it sends notes it between the
  steps, if all of them pass its request on.
-/
theorem exists_nests_chain
    {inner : Run ((σ × List Note) × τ) (Except Error Outcome)}
    {command : Run (σ × τ) (Except Error Outcome)}
    (hInner : Run.Notes AreSent inner command)
    (request : Request)
    (steps : List (Middleware σ))
    (state : σ)
    (own : τ) :
    let count := passing request steps state
    let run :=
      (chain Run.onFirst request inner
        (notedFrom 0 steps)).run ((state, []), own)
    ∃ sent : List Command,
      sent.length ≤ 1 ∧
      Nests run
        ((chain Run.onFirst request command steps).run
          (state, own))
        []
        (entering request 0 count steps.length
          (sent.map .sent))
        (leaving 0 count steps.length) ∧
      (count < steps.length → sent = [] ∧ run.2.2 = own) := by
  intro count run
  rcases nests_chain hInner steps state own 0 []
    with ⟨added, hAdded, hNests⟩
  by_cases hAll : count = steps.length
  · rcases hAdded hAll with ⟨sent, hLength, rfl⟩
    exact ⟨sent, hLength, hNests, fun hLess =>
      absurd hAll (Nat.ne_of_lt hLess)⟩
  · rw [entering_congr fun h => absurd h hAll] at hNests
    exact ⟨[], Nat.zero_le 1, hNests, fun hLess =>
      ⟨rfl, hNests.own.trans (own_of_passing_lt hLess)⟩⟩

end Middleware

------------------------------------------------------------
-- Calls
------------------------------------------------------------

/- What a call asks of its bucket, if it has a key if needed. -/
def Call.request?
    {σ : Type}
    (bucket : Bucket σ) : Call → Option Request
  | .get _ key _ =>
      if key.isEmpty then none
      else some ⟨.get, bucket.location key⟩
  | .set _ key _ _ => some ⟨.set, bucket.location key⟩
  | .setValue _ _ key _ _ => some ⟨.set, bucket.location key⟩
  | .mapOperation _ key _ _ =>
      some ⟨.mapOperation, bucket.location key⟩
  | .delete key _ =>
      if key.isEmpty then none
      else some ⟨.delete, bucket.location key⟩
  | .send _ | .sendSlot _ => none

/-
  The middleware of a bucket nests around a call, which
  notes what it sends between the steps.
-/
theorem Call.exists_nests
    {σ : Type}
    {bucket : Bucket σ}
    {call : Call}
    {request : Request}
    (hRequest : call.request? bucket = some request)
    (session : Session σ)
    (state : σ)
    (own : call.Own) :
    let count :=
      Middleware.passing request bucket.middleware state
    let length := bucket.middleware.length
    let run :=
      (call.run bucket.noted session.noted).run
        ((state, []), own)
    ∃ sent : List Command,
      sent.length ≤ 1 ∧
      Middleware.Nests run
        ((call.run bucket session).run (state, own)) []
        (Middleware.entering request 0 count length
          (sent.map .sent))
        (Middleware.leaving 0 count length) ∧
      (count < length → sent = [] ∧ run.2.2 = own) := by
  cases call with
  | get schema key options =>
      rw [request?] at hRequest
      split at hRequest
      · cases hRequest
      · rename_i hKey
        cases hRequest
        rw [run, run, Bucket.get, Bucket.get, if_neg hKey,
          if_neg hKey]
        exact Middleware.exists_nests_chain
          (Bucket.notes_fetchDocument session schema _ options)
          _ _ state own
  | set schema key filter options =>
      cases hRequest
      exact Middleware.exists_nests_chain
        (Bucket.notes_storeDocument session schema _ filter
          options) _ _ state own
  | setValue schema document key filter options =>
      cases hRequest
      rw [run, run, Bucket.setValue, Bucket.setValue,
        Bucket.run, Bucket.run, Middleware.onFirst_chain,
        Middleware.onFirst_chain]
      exact Middleware.exists_nests_chain
        (Bucket.notes_storeEncoded session _ filter options _)
        _ _ state own
  | mapOperation update key context options =>
      cases hRequest
      rw [run, run, Bucket.mapOperation, Bucket.mapOperation,
        Bucket.run, Bucket.run, Middleware.onFirst_chain,
        Middleware.onFirst_chain]
      exact Middleware.exists_nests_chain
        (Bucket.notes_changeMap session _) _ _ state own
  | delete key options =>
      rw [request?] at hRequest
      split at hRequest
      · cases hRequest
      · rename_i hKey
        cases hRequest
        rw [run, run, Bucket.delete, Bucket.delete, if_neg hKey,
          if_neg hKey, Bucket.run, Bucket.run,
          Middleware.onFirst_chain, Middleware.onFirst_chain]
        exact Middleware.exists_nests_chain
          (Bucket.notes_removeMap session _) _ _ state own
  | send kind => cases hRequest
  | sendSlot kind => cases hRequest

/-
  Steps behind others are within them.  Steps that note what
  they do come to what they come to otherwise, and note that
  they nest around the command, whether it has a part of the
  state of its own or not.  Without a key that a call needs,
  no step is entered.  Any other call sends one command at
  most, between all steps; where a step does not pass it on,
  it sends none and its own part stays.
-/
theorem Middleware.nests_in_order
    {σ τ : Type} :
    (∀ {m : Type → Type} [Monad m]
      (lift : {α : Type} → Run σ α → m α)
      (request : Request)
      (command : m (Except Error Outcome))
      (first second : List (Middleware σ)),
      chain lift request command (first ++ second) =
        chain lift request
          (chain lift request command second) first) ∧
    (∀ (request : Request)
      (command : Run (σ × τ) (Except Error Outcome))
      (steps : List (Middleware σ)) (state : σ) (own : τ),
      let count := passing request steps state
      Nests
        ((chain Run.onFirst request command.noted
          (notedFrom 0 steps)).run ((state, []), own))
        ((chain Run.onFirst request command steps).run
          (state, own))
        [] (entering request 0 count steps.length [.ran])
        (leaving 0 count steps.length)) ∧
    (∀ (request : Request)
      (command : Run σ (Except Error Outcome))
      (steps : List (Middleware σ)),
      Run.onFirst (chain id request command steps) =
        (chain Run.onFirst request (Run.onFirst command) steps :
          Run (σ × τ) (Except Error Outcome))) ∧
    (∀ (bucket : Bucket σ) (session : Session σ)
      (schema : Schema) (read : ReadOptions)
      (write : WriteOptions),
      (Call.get schema "" read).run bucket session =
          (return .error (.client (.missingKey "get"))) ∧
        (Call.delete "" write).run bucket session =
          (return .error (.client (.missingKey "delete")))) ∧
    ∀ (bucket : Bucket σ) (session : Session σ) (call : Call)
      (request : Request) (state : σ) (own : call.Own),
      call.request? bucket = some request →
        let count := passing request bucket.middleware state
        let length := bucket.middleware.length
        let run :=
          (call.run bucket.noted session.noted).run
            ((state, []), own)
        ∃ sent : List Command,
          sent.length ≤ 1 ∧
          Nests run
            ((call.run bucket session).run (state, own)) []
            (entering request 0 count length
              (sent.map .sent))
            (leaving 0 count length) ∧
          (count < length → sent = [] ∧ run.2.2 = own) := by
  refine ⟨chain_append, ?_, onFirst_chain, ?_, ?_⟩
  · intro request command steps state own count
    have hCommand :
        Run.Notes (· = [.ran]) command.noted command :=
      fun _ _ _ => ⟨_, rfl, rfl⟩
    rcases nests_chain hCommand steps state own 0 []
      with ⟨added, hAdded, hNests⟩
    rw [entering_congr hAdded] at hNests
    exact hNests
  · intro bucket session schema read write
    exact ⟨rfl, rfl⟩
  · intro bucket session call request state own hRequest
    exact Call.exists_nests hRequest session state own

/- The second of three steps answers, and is left first. -/
example :
    let pass : Middleware Unit := fun _ => return .pass pure
    let answer : Middleware Unit :=
      fun request =>
        return .answer (.ok ⟨request.location.key, []⟩)
    let bucket : Bucket Unit := ⟨"b", "t", [pass, answer, pass]⟩
    let session : Session Unit :=
      ⟨fun _ => throw .overflow, .unset⟩
    let request : Request := ⟨.delete, bucket.location "k"⟩
    let call := Call.delete "k" .unset
    (call.run bucket.noted session.noted).run (((), []), ()) =
      (.ok (.ok ⟨"k", []⟩),
        ((), [.entered 0 request, .entered 1 request, .left 1,
          .left 0]), ()) := by
  rfl

end CrdtDoc
