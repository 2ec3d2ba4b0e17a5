import CrdtDoc.Proofs.SessionCommands

/-
  This file shows that notes can be taken of what reaches a
  transport without a change of anything else.  The notes
  stand behind the state of the transport.  What is done
  over a session comes to the same, and each of the commands
  of a bucket notes at most one command that it sent.

  Key definitions include:
    * `Note`
    * `Run.note`
    * `Run.Notes`
    * `Transport.noted`
    * `AreSent`

  Main declarations:
    * `Run.Notes.bind`
    * `Bucket.notes_fetchDocument`
    * `Bucket.notes_storeDocument`
    * `Bucket.notes_storeEncoded`
    * `Bucket.notes_changeMap`
    * `Bucket.notes_removeMap`
-/

namespace CrdtDoc

------------------------------------------------------------
-- Notes
------------------------------------------------------------

/- What is noted of a call in a bucket with middleware. -/
inductive Note where
  | entered (position : Nat) (request : Request)
  | left (position : Nat)
  | ran
  | sent (command : Command)

/- Notes of sent commands, and of one at most. -/
def AreSent
    (notes : List Note) : Prop :=
  ∃ sent : List Command,
    sent.length ≤ 1 ∧ notes = sent.map .sent

/- What a computation came to, with notes beside it. -/
def Note.beside
    {α σ τ : Type}
    (notes : List Note) :
    α × σ × τ → α × (σ × List Note) × τ
  | (result, after, own) => (result, (after, notes), own)

namespace Run

variable {σ τ α β : Type}

/- Note something behind what was noted before. -/
def note
    (note : Note) : Run (σ × List Note) Unit :=
  modify fun (state, notes) => (state, notes ++ [note])

/-
  A computation with notes comes to what another one comes
  to without, and adds some notes of a kind.
-/
def Notes
    (IsNoted : List Note → Prop)
    (noted : Run ((σ × List Note) × τ) α)
    (plain : Run (σ × τ) α) : Prop :=
  ∀ state own notes,
    ∃ added,
      IsNoted added ∧
      noted.run ((state, notes), own) =
        Note.beside (notes ++ added) (plain.run (state, own))

/- A value is yielded without a note. -/
theorem notes_pure
    (value : α) :
    Notes (· = []) (pure value : Run ((σ × List Note) × τ) α)
      (pure value) := by
  intro state own notes
  refine ⟨[], rfl, ?_⟩
  rw [List.append_nil]
  rfl

/- What is noted first is noted of both. -/
theorem Notes.bind
    {IsNoted : List Note → Prop}
    {noted : Run ((σ × List Note) × τ) α}
    {plain : Run (σ × τ) α}
    (hFirst : Notes IsNoted noted plain)
    {second : α → Run ((σ × List Note) × τ) β}
    {other : α → Run (σ × τ) β}
    (hSecond :
      ∀ value, Notes (· = []) (second value) (other value)) :
    Notes IsNoted (noted >>= second) (plain >>= other) := by
  intro state own notes
  rw [run_bind, run_bind]
  rcases hFirst state own notes with ⟨added, hAdded, hNoted⟩
  rw [hNoted]
  refine ⟨added, hAdded, ?_⟩
  rcases plain.run (state, own)
    with ⟨reason | value, after, left⟩
  · rfl
  · rcases hSecond value after left (notes ++ added)
      with ⟨_, rfl, hRest⟩
    rw [List.append_nil] at hRest
    exact hRest

end Run

------------------------------------------------------------
-- Sessions
------------------------------------------------------------

/- The transport that notes the commands that reach it. -/
def Transport.noted
    {σ : Type}
    (transport : Transport σ) : Transport (σ × List Note) :=
  fun command => do
    Run.note (.sent command)
    Run.onFirst (transport command)

namespace Session

variable {σ τ : Type}

/- The session over such a transport. -/
def noted
    (session : Session σ) : Session (σ × List Note) :=
  ⟨session.transport.noted, session.config⟩

/- A command is noted as it is sent. -/
theorem notes_execute
    (session : Session σ)
    (command : Command) :
    Run.Notes AreSent
      (Run.onFirst (session.noted.execute command) :
        Run (_ × τ) _)
      (Run.onFirst (session.execute command)) := by
  intro state own notes
  rw [Run.run_onFirst, Run.run_onFirst, run_execute_eq,
    run_execute_eq]
  exact ⟨[.sent command], ⟨[command], Nat.le_refl 1, rfl⟩, rfl⟩

/- A fetch is noted as it is sent. -/
theorem notes_fetch
    (session : Session σ)
    (command : Fetch) :
    Run.Notes AreSent
      (Run.onFirst (session.noted.fetch command) :
        Run (_ × τ) _)
      (Run.onFirst (session.fetch command)) := by
  rw [fetch, fetch, Run.onFirst_bind, Run.onFirst_bind]
  refine (session.notes_execute _).bind ?_
  rintro (error | (response | response | _)) <;>
    exact Run.notes_pure _

/- An update is noted as it is sent. -/
theorem notes_change
    (session : Session σ)
    (command : Change) :
    Run.Notes AreSent
      (Run.onFirst (session.noted.change command) :
        Run (_ × τ) _)
      (Run.onFirst (session.change command)) := by
  rw [change, change, Run.onFirst_bind, Run.onFirst_bind]
  refine (session.notes_execute _).bind ?_
  rintro (error | (response | response | _)) <;>
    exact Run.notes_pure _

/- A deletion is noted as it is sent. -/
theorem notes_delete
    (session : Session σ)
    (command : Delete) :
    Run.Notes AreSent
      (Run.onFirst (session.noted.delete command) :
        Run (_ × τ) _)
      (Run.onFirst (session.delete command)) := by
  rw [delete, delete, Run.onFirst_bind, Run.onFirst_bind]
  refine (session.notes_execute _).bind ?_
  rintro (error | (response | response | _)) <;>
    exact Run.notes_pure _

end Session

------------------------------------------------------------
-- Buckets
------------------------------------------------------------

namespace Bucket

variable {σ τ : Type}

/- A document that is fetched notes the fetch. -/
theorem notes_fetchDocument
    (session : Session σ)
    (schema : Schema)
    (location : Location)
    (options : ReadOptions) :
    Run.Notes AreSent
      (fetchDocument session.noted schema location options)
      (fetchDocument session schema location options) := by
  refine (session.notes_fetch _).bind ?_
  rintro (error | response)
  · exact Run.notes_pure _
  · by_cases hFound : response.notFound
    · simp only [if_pos hFound]
      exact Run.notes_pure _
    · simp only [if_neg hFound]
      intro state document notes
      refine ⟨[], rfl, ?_⟩
      rw [List.append_nil, Run.run_bind, Run.run_bind,
        Run.run_get, Run.run_get]
      rcases hDecode :
          schema.decodeDocument response.map response.context
            (.root location) document
        with ⟨error | done, new⟩
      · simp only [hDecode]
        rfl
      · simp only [hDecode]
        rfl

/- A map that is changed notes the update. -/
theorem notes_changeMap
    (session : Session σ)
    (command : Change) :
    Run.Notes AreSent
      (Run.onFirst (changeMap session.noted command) :
        Run (_ × τ) _)
      (Run.onFirst (changeMap session command)) := by
  rw [changeMap, changeMap, Run.onFirst_bind,
    Run.onFirst_bind]
  refine (session.notes_change _).bind ?_
  rintro (error | response) <;> exact Run.notes_pure _

/- A map that is removed notes the deletion. -/
theorem notes_removeMap
    (session : Session σ)
    (command : Delete) :
    Run.Notes AreSent
      (Run.onFirst (removeMap session.noted command) :
        Run (_ × τ) _)
      (Run.onFirst (removeMap session command)) := by
  rw [removeMap, removeMap, Run.onFirst_bind,
    Run.onFirst_bind]
  refine (session.notes_delete _).bind ?_
  rintro (error | response) <;> exact Run.notes_pure _

/- What was written notes an update, if it could be. -/
theorem notes_storeEncoded
    (session : Session σ)
    (location : Location)
    (filter : Filter)
    (options : WriteOptions)
    (result : Except EncodeFailure Encoded) :
    Run.Notes AreSent
      (Run.onFirst
          (storeEncoded session.noted location filter options
            result) :
        Run (_ × τ) _)
      (Run.onFirst
        (storeEncoded session location filter options
          result)) := by
  rcases result with (error | reason) | encoded
  · intro state own notes
    refine ⟨[], ⟨[], Nat.zero_le 1, rfl⟩, ?_⟩
    rw [List.append_nil]
    rfl
  · intro state own notes
    refine ⟨[], ⟨[], Nat.zero_le 1, rfl⟩, ?_⟩
    rw [List.append_nil]
    rfl
  · exact notes_changeMap session _

/- A document that is stored notes what was written of it. -/
theorem notes_storeDocument
    (session : Session σ)
    (schema : Schema)
    (location : Location)
    (filter : Filter)
    (options : WriteOptions) :
    Run.Notes AreSent
      (storeDocument session.noted schema location filter
        options)
      (storeDocument session schema location filter
        options) := by
  intro state document notes
  rw [run_storeDocument, run_storeDocument]
  exact notes_storeEncoded session location filter options _
    state _ notes

end Bucket

end CrdtDoc
