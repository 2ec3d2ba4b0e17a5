import CrdtDoc.Json.Handle
import CrdtDoc.Proofs.SendOutcome
import Mathlib.Data.List.Nodup

/-
  This file shows what holds of a handle of a set after any
  uses of it, whatever the transports answer that it is sent
  over.  What is to be added is among its items, each item
  once, and what is to be removed is not.  If its items were
  distinct at first and the sets in all answers are, they
  stay distinct.

  Key definitions include:
    * `CrdtMap.HasDistinctMembers`
    * `AreDistinct`
    * `SetHandle.IsConsistent`
    * `SetHandle.IsNew`
    * `SetUse`
    * `SetHandle.use`

  Main declarations:
    * `SetHandle.IsConsistent.use`
    * `SetHandle.areDistinct_use`
    * `SetHandle.consistent_after_uses`
-/

namespace CrdtDoc

------------------------------------------------------------
-- Distinct Members
------------------------------------------------------------

/- Each set of a map, at any depth, has distinct members. -/
def CrdtMap.HasDistinctMembers
    (map : CrdtMap) : Prop :=
  ∀ path inner name members,
    map.at? path = some inner →
      inner.set? name = some members → members.Nodup

/- So has each set of a map that answers an update. -/
def Exchange.HasDistinctMembers
    (exchange : Exchange) : Prop :=
  ∀ response map,
    exchange.answer = .ok (.ok (.changed response)) →
      response.map = some map → map.HasDistinctMembers

------------------------------------------------------------
-- Distinct Items
------------------------------------------------------------

/- Some items are distinct, and the empty one is not there. -/
structure AreDistinct
    (items : List Bytes) : Prop where
  nodup : items.Nodup
  nil_not_mem : [] ∉ items

namespace AreDistinct

variable {items : List Bytes} {item : Bytes}

/- No items are distinct. -/
theorem nil :
    AreDistinct [] :=
  ⟨List.nodup_nil, List.not_mem_nil⟩

/- Distinct items stay so with a new one. -/
theorem append
    (hItems : AreDistinct items)
    (hEmpty : item ≠ [])
    (hNew : item ∉ items) :
    AreDistinct (items ++ [item]) := by
  constructor
  · rw [← List.concat_eq_append]
    exact hItems.nodup.concat hNew
  · rw [List.mem_append, List.mem_singleton, not_or]
    exact ⟨hItems.nil_not_mem, Ne.symm hEmpty⟩

/- Distinct items stay so if some are left out. -/
theorem filter
    (hItems : AreDistinct items)
    (keep : Bytes → Bool) :
    AreDistinct (items.filter keep) where
  nodup := hItems.nodup.filter keep
  nil_not_mem := fun hNil =>
    hItems.nil_not_mem (List.mem_of_mem_filter hNil)

end AreDistinct

namespace SetHandle

variable {set : SetHandle}

/- What is added anew is neither empty nor an item. -/
theorem add_eq_or
    (set : SetHandle)
    (item : Bytes) :
    set.add item = set ∨
      item ≠ [] ∧ item ∉ set.items ∧
      set.add item =
        { set with
          items := set.items ++ [item]
          adds := set.adds ++ [item]
          removes := set.removes.filter (· ≠ item) } := by
  unfold add
  split
  · exact Or.inl rfl
  · rename_i hNew
    simp only [Bool.or_eq_true, List.isEmpty_iff, not_or,
      has, List.contains_iff_mem] at hNew
    exact Or.inr ⟨hNew.1, hNew.2, rfl⟩

/- An addition keeps the items distinct. -/
theorem areDistinct_add
    (hItems : AreDistinct set.items)
    (item : Bytes) :
    AreDistinct (set.add item).items := by
  rcases set.add_eq_or item
    with hSame | ⟨hEmpty, hNew, hAdded⟩
  · rw [hSame]
    exact hItems
  · rw [hAdded]
    exact hItems.append hEmpty hNew

/- The items of a set with distinct members are distinct. -/
theorem areDistinct_storedItems
    {document map : CrdtMap}
    (hDistinct : document.HasDistinctMembers)
    {path : List String}
    (hMap : document.at? path = some map)
    (name : String) :
    AreDistinct (storedItems map name) := by
  constructor
  · refine List.Nodup.filter _ ?_
    cases hSet : map.set? name with
    | none => exact List.nodup_nil
    | some members =>
        exact hDistinct path map name members hMap hSet
  · intro hNil
    have hKept := (List.mem_filter.mp hNil).2
    cases hKept

/- So does an answer whose sets have distinct members. -/
theorem areDistinct_received
    (hItems : AreDistinct set.items)
    {document? : Option CrdtMap}
    (hDistinct :
      ∀ document,
        document? = some document →
          document.HasDistinctMembers)
    (context : Bytes) :
    AreDistinct (set.received document? context).items := by
  cases hFound : document?.bind set.binding.mapIn? with
  | none =>
      have hKept :
          (set.received document? context).items =
            set.items := by
        rw [received]
        simp only [hFound]
      rw [hKept]
      exact hItems
  | some map =>
      rcases Option.bind_eq_some_iff.mp hFound
        with ⟨document, hDocument, hMap⟩
      rw [items_received hFound]
      exact areDistinct_storedItems
        (hDistinct document hDocument) hMap _

------------------------------------------------------------
-- Consistency
------------------------------------------------------------

/-
  Of the changes to be sent, each addition is that of an
  item, and no other addition is the same; and a removal is
  that of no item.
-/
structure IsConsistent
    (set : SetHandle) : Prop where
  adds_distinct : AreDistinct set.adds
  mem_items_of_adds : ∀ item ∈ set.adds, item ∈ set.items
  not_mem_items_of_removes :
    ∀ item ∈ set.removes, item ∉ set.items

/- A handle without changes to be sent is consistent. -/
theorem isConsistent_of_nil
    (hAdds : set.adds = [])
    (hRemoves : set.removes = []) :
    set.IsConsistent := by
  constructor
  · rw [hAdds]
    exact .nil
  · rw [hAdds]
    exact List.forall_mem_nil _
  · rw [hRemoves]
    exact List.forall_mem_nil _

namespace IsConsistent

/- Nothing is to be added and to be removed. -/
theorem disjoint
    (hConsistent : set.IsConsistent) :
    set.adds.Disjoint set.removes := by
  intro item hAdd hRemove
  exact hConsistent.not_mem_items_of_removes item hRemove
    (hConsistent.mem_items_of_adds item hAdd)

/- An addition keeps a handle consistent. -/
theorem add
    (hConsistent : set.IsConsistent)
    (item : Bytes) :
    (set.add item).IsConsistent := by
  rcases set.add_eq_or item
    with hSame | ⟨hEmpty, hNew, hAdded⟩
  · rw [hSame]
    exact hConsistent
  · have hAdds : item ∉ set.adds := by
      intro hItem
      exact hNew (hConsistent.mem_items_of_adds item hItem)
    rw [hAdded]
    refine
      { adds_distinct := ?_
        mem_items_of_adds := ?_
        not_mem_items_of_removes := ?_ }
    · exact hConsistent.adds_distinct.append hEmpty hAdds
    · intro other hOther
      rcases List.mem_append.mp hOther with hOld | hLast
      · exact List.mem_append_left _
          (hConsistent.mem_items_of_adds other hOld)
      · exact List.mem_append_right _ hLast
    · intro other hOther hMem
      rcases List.mem_filter.mp hOther with ⟨hOld, hNe⟩
      rcases List.mem_append.mp hMem with hItem | hLast
      · exact hConsistent.not_mem_items_of_removes other hOld
          hItem
      · exact of_decide_eq_true hNe
          (List.mem_singleton.mp hLast)

/- A removal keeps a handle consistent. -/
theorem remove
    (hConsistent : set.IsConsistent)
    (item : Bytes) :
    (set.remove item).IsConsistent where
  adds_distinct := hConsistent.adds_distinct.filter _
  mem_items_of_adds := by
    intro other hOther
    rcases List.mem_filter.mp hOther with ⟨hOld, hNe⟩
    exact List.mem_filter.mpr
      ⟨hConsistent.mem_items_of_adds other hOld, hNe⟩
  not_mem_items_of_removes := by
    intro other hOther hMem
    rcases List.mem_filter.mp hMem with ⟨hItem, hNe⟩
    rcases List.mem_append.mp hOther with hOld | hLast
    · exact hConsistent.not_mem_items_of_removes other hOld
        hItem
    · exact of_decide_eq_true hNe
        (List.mem_singleton.mp hLast)

end IsConsistent

end SetHandle

------------------------------------------------------------
-- Uses
------------------------------------------------------------

namespace SetHandle

/- A handle of a set that has not been used. -/
inductive IsNew : SetHandle → Prop where
  | bound
      (binding : Binding) :
      IsNew (bound binding)
  | loaded
      (binding : Binding)
      (map : CrdtMap) :
      IsNew (load binding map)
  | read
      (items : List Bytes) :
      IsNew { bound default with items }

end SetHandle

/- What can be done with a handle of a set. -/
inductive SetUse (σ : Type) where
  | add (item : Bytes)
  | remove (item : Bytes)
  | send (session : Session σ)

namespace SetHandle

variable {σ : Type}

/- One use of a handle, which may stop for good. -/
def use :
    SetUse σ → Run (σ × SetHandle) (Except Error Unit)
  | .add item => do
      modify fun (state, set) => (state, set.add item)
      return .ok ()
  | .remove item => do
      modify fun (state, set) => (state, set.remove item)
      return .ok ()
  | .send session => HandleKind.set.send session

/- What is exchanged as a handle is used. -/
def exchanged
    (state : σ × SetHandle) : SetUse σ → List Exchange
  | .send session =>
      let slot : Slot .set := some state.2
      slot.exchanges session state.1
  | _ => []

/- All exchanges of some uses have distinct members. -/
def ExchangesDistinct :
    σ × SetHandle → List (SetUse σ) → Prop
  | _, [] => True
  | state, next :: rest =>
      (∀ exchange ∈ exchanged state next,
        exchange.HasDistinctMembers) ∧
      ExchangesDistinct ((use next).run state).2 rest

variable {set : SetHandle} {state : σ × SetHandle}

/- A handle that is sent is kept, or receives an answer. -/
theorem eq_or_received
    (state : σ × SetHandle)
    (session : Session σ) :
    let new := ((use (.send session)).run state).2.2
    new = state.2 ∨
      ∃ exchange ∈ exchanged state (.send session),
        ∃ response,
          exchange.answer = .ok (.ok (.changed response)) ∧
          new = state.2.received response.map
            response.context := by
  intro new
  let slot : Slot .set := some state.2
  have hComes := slot.comesTo_send session state.1
  rcases hComes.eq_or_received
    with hKept | ⟨command, response, hMem, hNew⟩
  · exact Or.inl hKept
  · exact Or.inr ⟨_, hMem, response, rfl, hNew⟩

/- A handle that has not been used is consistent. -/
theorem IsNew.isConsistent
    (hNew : set.IsNew) :
    set.IsConsistent := by
  cases hNew with
  | bound binding => exact isConsistent_of_nil rfl rfl
  | loaded binding map => exact isConsistent_of_nil rfl rfl
  | read items => exact isConsistent_of_nil rfl rfl

/- One that is read from JSON has not been used. -/
theorem isNew_of_ofJson
    {text : String}
    (hRead : HandleKind.set.ofJson text = .ok set) :
    set.IsNew := by
  unfold HandleKind.ofJson at hRead
  split at hRead
  · rename_i read hReader
    cases hRead
    rcases Option.bind_eq_some_iff.mp hReader
      with ⟨json, _, hJson⟩
    rcases Option.map_eq_some_iff.mp hJson
      with ⟨items, _, rfl⟩
    exact .read items
  · cases hRead

/- Every use keeps a handle consistent. -/
theorem IsConsistent.use
    (hConsistent : state.2.IsConsistent)
    (next : SetUse σ) :
    ((SetHandle.use next).run state).2.2.IsConsistent := by
  cases next with
  | add item => exact hConsistent.add item
  | remove item => exact hConsistent.remove item
  | send session =>
      rcases eq_or_received state session
        with hKept | ⟨exchange, _, response, _, hNew⟩
      · rw [hKept]
        exact hConsistent
      · rw [hNew]
        exact isConsistent_of_nil rfl rfl

/- Every use keeps the items distinct, as answers are. -/
theorem areDistinct_use
    (hItems : AreDistinct state.2.items)
    {next : SetUse σ}
    (hExchanged :
      ∀ exchange ∈ exchanged state next,
        exchange.HasDistinctMembers) :
    AreDistinct ((use next).run state).2.2.items := by
  cases next with
  | add item => exact areDistinct_add hItems item
  | remove item => exact hItems.filter _
  | send session =>
      rcases eq_or_received state session
        with hKept | ⟨exchange, hMem, response, hAnswer, hNew⟩
      · rw [hKept]
        exact hItems
      · rw [hNew]
        refine areDistinct_received hItems ?_ _
        intro document hDocument
        exact hExchanged exchange hMem response document
          hAnswer hDocument

/- The handle after some uses, whatever they come to. -/
def afterUses
    (start : σ × SetHandle)
    (uses : List (SetUse σ)) : σ × SetHandle :=
  Run.afterAll use start uses

/- Any uses keep a handle consistent. -/
theorem IsConsistent.afterUses
    {start : σ × SetHandle}
    (hConsistent : start.2.IsConsistent)
    (uses : List (SetUse σ)) :
    (SetHandle.afterUses start uses).2.IsConsistent := by
  induction uses generalizing start with
  | nil => exact hConsistent
  | cons next rest ih => exact ih (hConsistent.use next)

/- Any uses keep the items distinct, as answers are. -/
theorem areDistinct_afterUses
    {start : σ × SetHandle}
    (hItems : AreDistinct start.2.items)
    {uses : List (SetUse σ)}
    (hExchanges : ExchangesDistinct start uses) :
    AreDistinct (afterUses start uses).2.items := by
  induction uses generalizing start with
  | nil => exact hItems
  | cons next rest ih =>
      exact ih (areDistinct_use hItems hExchanges.1)
        hExchanges.2

/-
  After any uses of a new handle, what is to be added are
  items, each once and never the empty one, and what is to
  be removed are none; and the items stay distinct if they
  were and all sets in answers have distinct members.
-/
theorem consistent_after_uses
    (hNew : set.IsNew)
    (before : σ)
    (uses : List (SetUse σ)) :
    let last := (afterUses (before, set) uses).2
    (last.IsConsistent ∧ last.adds.Disjoint last.removes) ∧
    (AreDistinct set.items →
      ExchangesDistinct (before, set) uses →
      AreDistinct last.items) := by
  intro last
  have hFirst : (before, set).2.IsConsistent :=
    hNew.isConsistent
  have hLast : last.IsConsistent := hFirst.afterUses uses
  refine ⟨⟨hLast, hLast.disjoint⟩, ?_⟩
  intro hItems hExchanges
  have hStart : AreDistinct (before, set).2.items := hItems
  exact areDistinct_afterUses hStart hExchanges

/-
  All exchanges have distinct members if the transports have
  no other answers.
-/
theorem exchangesDistinct_of_answers
    {uses : List (SetUse σ)}
    (hAnswers :
      ∀ session,
        .send session ∈ uses →
          ∀ command before,
            Exchange.HasDistinctMembers
              ⟨command,
                ((session.transport command).run before).1⟩)
    (start : σ × SetHandle) :
    ExchangesDistinct start uses := by
  induction uses generalizing start with
  | nil => trivial
  | cons next rest ih =>
      refine ⟨?_, ih ?_ _⟩
      · intro exchange hExchange
        cases next with
        | add item => cases hExchange
        | remove item => cases hExchange
        | send session =>
            let slot : Slot .set := some start.2
            have hAnswer :=
              (slot.run_send_exchanges session start.1).2
                exchange hExchange
            have hDistinct :=
              hAnswers session List.mem_cons_self
                exchange.command start.1
            rw [← hAnswer] at hDistinct
            exact hDistinct
      · intro session hSession
        exact hAnswers session
          (List.mem_cons_of_mem next hSession)

/- A set is sent once in vain, then answered, then changed. -/
theorem consistent_after_uses_sent :
    let stored : CrdtMap :=
      { CrdtMap.empty with sets := [("s", [[], [1], [2]])] }
    let answer : CrdtMap :=
      { CrdtMap.empty with sets := [("s", [[], [2], [3]])] }
    let transport : Transport Nat := fun _ =>
      ExceptT.mk fun count =>
        (.ok
          (if count = 0 then .error (.connection "down")
          else .ok (.changed ⟨none, some answer, [9]⟩)),
          count + 1)
    let session : Session Nat := ⟨transport, .unset⟩
    let set :=
      load ⟨⟨⟨"b", "t", "k"⟩, []⟩, "s", [7]⟩ stored
    let uses : List (SetUse Nat) :=
      [.add [3], .remove [1], .remove [3], .add [3], .add [],
        .send session, .send session, .remove [2], .add [2]]
    let last := (afterUses (0, set) uses).2
    (set.IsNew ∧ AreDistinct set.items ∧
      ExchangesDistinct (0, set) uses) ∧
    (last.IsConsistent ∧ last.adds.Disjoint last.removes) ∧
    AreDistinct last.items := by
  intro stored answer transport session set uses last
  have hNew : set.IsNew := .loaded _ stored
  have hItems : AreDistinct set.items :=
    ⟨by decide, by decide⟩
  have hDistinct : answer.HasDistinctMembers := by
    intro path inner name members hInner hMembers
    cases path with
    | nil =>
        cases hInner
        change (if "s" = name then some [[], [2], [3]]
          else none) = some members at hMembers
        split at hMembers
        · cases hMembers
          decide
        · cases hMembers
    | cons first rest => cases hInner
  have hAnswers :
      ∀ command count,
        Exchange.HasDistinctMembers
          ⟨command, ((transport command).run count).1⟩ := by
    intro command count response map hAnswer hMap
    have hResponse := Except.ok.inj hAnswer
    split at hResponse
    · cases hResponse
    · cases hResponse
      cases hMap
      exact hDistinct
  have hExchanges : ExchangesDistinct (0, set) uses := by
    refine exchangesDistinct_of_answers ?_ _
    intro other hOther
    have hSession : other = session := by
      simpa [uses] using hOther
    rw [hSession]
    exact hAnswers
  have hLast := consistent_after_uses hNew 0 uses
  exact
    ⟨⟨hNew, hItems, hExchanges⟩, hLast.1,
      hLast.2 hItems hExchanges⟩

end SetHandle

end CrdtDoc
