import CrdtDoc.Proofs.HandleSending
import Mathlib.Algebra.BigOperators.Group.Finset.Basic
import Mathlib.Algebra.Ring.Int.Defs
import Mathlib.Data.Fintype.BigOperators
import Mathlib.Data.List.Induction

/-
  This file shows that handles of counters share what they
  count: no amount is lost, and none is sent twice, however
  the handles are increased and sent by turns.

  Key definitions include:
    * `SharedCounters`
    * `CounterAction`
    * `SharedCounters.step`
    * `SharedCounters.stored`
    * `SharedCounters.unsent`
    * `SharedCounters.Steps`
    * `SharedCounters.Agrees`

  Main declarations:
    * `HandleKind.Sent.counter`
    * `SharedCounters.steps_of_step`
    * `SharedCounters.Steps.conserved`
    * `SharedCounters.agrees_of_not_overflows`
-/

namespace CrdtDoc

------------------------------------------------------------
-- Single Counters
------------------------------------------------------------

/- A sum has the value of both numbers together. -/
theorem Integer.toInt_of_add?
    {type : IntType}
    {a b sum : Integer type}
    (hSum : a.add? b = some sum) :
    sum.toInt = a.toInt + b.toInt :=
  ofInt?_eq_some_iff.mp hSum

/-
  An amount is added to the value and then to what is
  unsent, as long as both sums are in range.
-/
theorem Counter.run_increase
    (amount : Integer .i64)
    (counter : Counter) :
    (Counter.increase amount).run counter =
      match counter.value.add? amount with
      | none => (.error .overflow, counter)
      | some value =>
          match counter.pending.add? amount with
          | none => (.error .overflow, { counter with value })
          | some pending =>
              (.ok (), { counter with value, pending }) := by
  have hAdd :
      ∀ (a b : Integer .i64) (before : Counter),
        (Run.add a b).run before =
          match a.add? b with
          | none => (.error .overflow, before)
          | some sum => (.ok sum, before) := by
    intro a b before
    unfold Run.add
    cases a.add? b <;> rfl
  have hGet :
      ∀ before : Counter,
        (get : Run Counter Counter).run before =
          (.ok before, before) := by
    intro before
    rfl
  have hModify :
      ∀ (change : Counter → Counter) (before : Counter),
        (modify change : Run Counter PUnit).run before =
          (.ok ⟨⟩, change before) := by
    intro change before
    rfl
  simp only [increase, Run.run_bind, hGet, hAdd, hModify]
  cases counter.value.add? amount with
  | none => rfl
  | some value =>
      simp only
      cases counter.pending.add? amount <;> rfl

/- A sent counter shows what is stored, with nothing unsent. -/
theorem HandleKind.Sent.counter
    {before after : Store}
    {old new : Counter}
    (hSent : HandleKind.counter.Sent before after old new) :
    let path := old.binding.path
    let name := old.binding.name
    new.binding = old.binding ∧
    new.pending.toInt = 0 ∧
    (after.leaf path name).counter = some new.value ∧
    new.value.toInt =
      ((before.leaf path name).counter.getD .zero).toInt +
        old.pending.toInt := by
  intro path name
  rcases hSent.exists_answer
    with ⟨document, map, context, hMap, hLeaf, _, hNew⟩
  rcases hSent.makes.counter with ⟨sum, hSum, hStored⟩
  have hValue : new.value = sum := by
    have hCounter : map.counter? name = some sum := by
      have hEntry := congrArg CrdtMap.Entry.counter hLeaf
      exact hEntry.symm.trans hStored
    have hFound :
        (some document).bind old.binding.mapIn? = some map :=
      hMap
    rw [hNew]
    exact Counter.value_received hFound hCounter
  refine ⟨hNew ▸ rfl, hNew ▸ rfl, hValue ▸ hStored, ?_⟩
  rw [hValue]
  exact Update.sumOf_eq_ok_iff_toInt.mp hSum

------------------------------------------------------------
-- Shared Counters
------------------------------------------------------------

/- A store, and handles of counters that are kept in it. -/
structure SharedCounters (ι : Type) where
  store : Store
  counters : ι → Counter

/- What is done with one of the handles. -/
inductive CounterAction (ι : Type) where
  | increase (i : ι) (amount : Integer .i64)
  | send (i : ι) (config : Config)

variable {ι : Type} [DecidableEq ι]

namespace CounterAction

/- The amount that is added to one of the handles. -/
def amountFor
    (i : ι) : CounterAction ι → Int
  | .increase j amount => if i = j then amount.toInt else 0
  | .send _ _ => 0

/- All that is added to one of the handles. -/
def added
    (i : ι)
    (actions : List (CounterAction ι)) : Int :=
  (actions.map (amountFor i)).sum

end CounterAction

namespace SharedCounters

/- The counters with one of them replaced. -/
def put
    (shared : SharedCounters ι)
    (i : ι)
    (store : Store)
    (counter : Counter) : SharedCounters ι where
  store
  counters := Function.update shared.counters i counter

/- Only one of the counters is replaced. -/
theorem counters_put
    (shared : SharedCounters ι)
    (i j : ι)
    (store : Store)
    (counter : Counter) :
    (shared.put i store counter).counters j =
      if j = i then counter else shared.counters j :=
  Function.update_apply shared.counters i counter j

/- One action, which may stop for good. -/
def step
    (newKey : Nat → String) :
    CounterAction ι →
      Run (SharedCounters ι) (Except Error Unit)
  | .increase i amount => ExceptT.mk fun shared =>
      let (result, counter) :=
        (Counter.increase amount).run (shared.counters i)
      (result.map .ok, shared.put i shared.store counter)
  | .send i config => ExceptT.mk fun shared =>
      let session := ⟨Store.execute newKey, config⟩
      let (result, store, counter) :=
        (HandleKind.counter.send session).run
          (shared.store, shared.counters i)
      (result, shared.put i store counter)

/- The state after some actions. -/
def after
    (newKey : Nat → String)
    (shared : SharedCounters ι)
    (actions : List (CounterAction ι)) : SharedCounters ι :=
  Run.afterAll (step newKey) shared actions

/- The counter that is stored under a name, 0 if absent. -/
def stored
    (shared : SharedCounters ι)
    (path : Path)
    (name : String) : Int :=
  ((shared.store.leaf path name).counter.getD .zero).toInt

/- The handles of a counter. -/
def handlesOf
    [Fintype ι]
    (shared : SharedCounters ι)
    (path : Path)
    (name : String) : Finset ι :=
  Finset.univ.filter fun i =>
    (shared.counters i).binding.path = path ∧
    (shared.counters i).binding.name = name

/- What the handles of a counter have not sent. -/
def unsent
    [Fintype ι]
    (shared : SharedCounters ι)
    (path : Path)
    (name : String) : Int :=
  ∑ i ∈ shared.handlesOf path name,
    (shared.counters i).pending.toInt

------------------------------------------------------------
-- Single Actions
------------------------------------------------------------

/- The store can be read, and all handles are valid. -/
structure Ready
    (shared : SharedCounters ι) : Prop where
  readable : shared.store.poisoned = false
  valid : ∀ i, (shared.counters i).binding.IsValid

/- All that an action can do, unless it stops. -/
inductive Steps
    (shared : SharedCounters ι) :
    CounterAction ι → SharedCounters ι → Prop where
  | increased
      (i : ι)
      (amount : Integer .i64)
      (counter : Counter)
      (hBinding :
        counter.binding = (shared.counters i).binding)
      (hValue :
        counter.value.toInt =
          (shared.counters i).value.toInt + amount.toInt)
      (hPending :
        counter.pending.toInt =
          (shared.counters i).pending.toInt + amount.toInt) :
      Steps shared (.increase i amount)
        (shared.put i shared.store counter)
  | sent
      (i : ι)
      (config : Config)
      (store : Store)
      (counter : Counter)
      (hSent :
        HandleKind.counter.Sent shared.store store
          (shared.counters i) counter) :
      Steps shared (.send i config)
        (shared.put i store counter)

variable {newKey : Nat → String} {shared : SharedCounters ι}

/- An action that does not overflow is made without error. -/
theorem steps_of_step
    (hReady : shared.Ready)
    {action : CounterAction ι}
    (hRun :
      ((step newKey action).run shared).1 ≠
        .error .overflow) :
    ((step newKey action).run shared).1 = .ok (.ok ()) ∧
    Steps shared action
      ((step newKey action).run shared).2 := by
  cases action with
  | increase i amount =>
      have hStep :
          ∀ result counter,
            (Counter.increase amount).run
                (shared.counters i) =
              (result, counter) →
            (step newKey (.increase i amount)).run shared =
              (result.map .ok,
                shared.put i shared.store counter) := by
        intro result counter hIncrease
        change (((Counter.increase amount).run _).1.map _,
          shared.put i _
            ((Counter.increase amount).run _).2) = _
        rw [hIncrease]
      have hIncrease :=
        Counter.run_increase amount (shared.counters i)
      split at hIncrease
      · rw [hStep _ _ hIncrease] at hRun
        exact absurd rfl hRun
      · rename_i value hValue
        split at hIncrease
        · rw [hStep _ _ hIncrease] at hRun
          exact absurd rfl hRun
        · rename_i pending hPending
          rw [hStep _ _ hIncrease]
          exact ⟨rfl,
            .increased i amount _ rfl
              (Integer.toInt_of_add? hValue)
              (Integer.toInt_of_add? hPending)⟩
  | send i config =>
      have hStep :
          ∀ result store counter,
            (HandleKind.counter.send
                ⟨Store.execute newKey, config⟩).run
                (shared.store, shared.counters i) =
              (result, store, counter) →
            (step newKey (.send i config)).run shared =
              (result, shared.put i store counter) := by
        intro result store counter hSend
        change (((HandleKind.counter.send _).run _).1,
          shared.put i ((HandleKind.counter.send _).run _).2.1
            ((HandleKind.counter.send _).run _).2.2) = _
        rw [hSend]
      rcases HandleKind.counter.sent_or_stopped
        hReady.readable (hReady.valid i)
        (fun hSet => HandleKind.noConfusion hSet) newKey config
        with ⟨store, counter, hSend, hSent⟩ | ⟨store, hSend⟩
      · rw [hStep _ _ _ hSend]
        exact ⟨rfl, .sent i config store counter hSent⟩
      · rw [hStep _ _ _ hSend] at hRun
        exact absurd rfl hRun

namespace Steps

variable {action : CounterAction ι}
variable {next : SharedCounters ι}

/- No handle leaves its entry. -/
theorem binding_eq
    (hSteps : Steps shared action next)
    (j : ι) :
    (next.counters j).binding =
      (shared.counters j).binding := by
  cases hSteps with
  | increased i amount counter hBinding _ _ =>
      rw [counters_put]
      split
      · rename_i hEq
        rw [hEq, hBinding]
      · rfl
  | sent i config store counter hSent =>
      rw [counters_put]
      split
      · rename_i hEq
        rw [hEq, hSent.counter.1]
      · rfl

/- The store can still be read, and all handles are valid. -/
theorem ready
    (hSteps : Steps shared action next)
    (hReady : shared.Ready) :
    next.Ready := by
  constructor
  · cases hSteps with
    | increased i amount counter _ _ _ =>
        exact hReady.readable
    | sent i config store counter hSent =>
        exact hSent.readable
  · intro i
    rw [hSteps.binding_eq i]
    exact hReady.valid i

/- A handle that is not sent gains what is added to it. -/
theorem value_eq
    (hSteps : Steps shared action next)
    {j : ι}
    (hUnsent : ∀ config, action ≠ .send j config) :
    (next.counters j).value.toInt =
      (shared.counters j).value.toInt +
        action.amountFor j := by
  cases hSteps with
  | increased i amount counter _ hValue _ =>
      rw [counters_put, CounterAction.amountFor]
      by_cases hEq : j = i
      · rw [if_pos hEq, if_pos hEq, hEq, hValue]
      · rw [if_neg hEq, if_neg hEq, add_zero]
  | sent i config store counter hSent =>
      have hNe : j ≠ i := by
        intro hEq
        exact hUnsent config (hEq ▸ rfl)
      rw [counters_put, if_neg hNe, CounterAction.amountFor,
        add_zero]

variable [Fintype ι]

/- The handles of a counter stay the same. -/
theorem handlesOf_eq
    (hSteps : Steps shared action next)
    (path : Path)
    (name : String) :
    next.handlesOf path name = shared.handlesOf path name := by
  simp only [handlesOf, hSteps.binding_eq]

/-
  What is stored and unsent together grows by what is added
  to the handles.
-/
theorem conserved
    (hSteps : Steps shared action next)
    (path : Path)
    (name : String) :
    next.stored path name + next.unsent path name =
      shared.stored path name + shared.unsent path name +
        ∑ i ∈ shared.handlesOf path name,
          action.amountFor i := by
  have hHandles := hSteps.handlesOf_eq path name
  cases hSteps with
  | increased i amount counter _ _ hPending =>
      have hAll :
          ∀ j,
            ((shared.put i shared.store counter).counters
                j).pending.toInt =
              (shared.counters j).pending.toInt +
                CounterAction.amountFor j
                  (.increase i amount) := by
        intro j
        rw [counters_put, CounterAction.amountFor]
        by_cases hEq : j = i
        · rw [if_pos hEq, if_pos hEq, hEq, hPending]
        · rw [if_neg hEq, if_neg hEq, add_zero]
      rw [unsent, hHandles,
        Finset.sum_congr rfl fun j _ => hAll j,
        Finset.sum_add_distrib, ← add_assoc]
      rfl
  | sent i config store counter hSent =>
      rcases hSent.counter with ⟨_, hPending, hStored, hValue⟩
      have hAll :
          ∀ j,
            ((shared.put i store counter).counters
                j).pending.toInt =
              (shared.counters j).pending.toInt -
                if j = i then
                  (shared.counters i).pending.toInt
                else 0 := by
        intro j
        rw [counters_put]
        by_cases hEq : j = i
        · rw [if_pos hEq, if_pos hEq, hEq, hPending, sub_self]
        · rw [if_neg hEq, if_neg hEq, sub_zero]
      have hHere :
          (shared.put i store counter).stored path name =
            shared.stored path name +
              if i ∈ shared.handlesOf path name then
                (shared.counters i).pending.toInt
              else 0 := by
        split
        · rename_i hMem
          rcases (Finset.mem_filter.mp hMem).2
            with ⟨hPath, hName⟩
          subst hPath hName
          unfold stored
          rw [← hValue]
          exact congrArg (fun counter =>
            (counter.getD Integer.zero).toInt) hStored
        · rename_i hMem
          have hOther :
              path ≠ (shared.counters i).binding.path ∨
                name ≠ (shared.counters i).binding.name := by
            rw [handlesOf, Finset.mem_filter, not_and_or,
              not_and_or] at hMem
            rcases hMem with hMem | hPath | hName
            · exact absurd (Finset.mem_univ i) hMem
            · exact Or.inl (Ne.symm hPath)
            · exact Or.inr (Ne.symm hName)
          have hLeaf := hSent.others path name hOther
          rw [add_zero]
          exact congrArg (fun entry : CrdtMap.Entry =>
            (entry.counter.getD .zero).toInt) hLeaf
      rw [unsent, hHandles,
        Finset.sum_congr rfl fun j _ => hAll j,
        Finset.sum_sub_distrib, Finset.sum_ite_eq', hHere]
      simp only [CounterAction.amountFor,
        Finset.sum_const_zero, unsent]
      split <;> omega

end Steps

------------------------------------------------------------
-- Rows of Actions
------------------------------------------------------------

variable {actions : List (CounterAction ι)}

/- The last of some actions that do not overflow is made. -/
theorem steps_last
    {action : CounterAction ι}
    (hReady : (shared.after newKey actions).Ready)
    (hOverflows :
      ¬Run.Overflows (step newKey) shared
        (actions ++ [action])) :
    ((step newKey action).run
        (shared.after newKey actions)).1 = .ok (.ok ()) ∧
    Steps (shared.after newKey actions) action
      (shared.after newKey (actions ++ [action])) := by
  rw [Run.overflows_append_iff, not_or, Run.Overflows,
    not_or] at hOverflows
  have hSteps := steps_of_step hReady hOverflows.2.1
  unfold after
  rw [Run.afterAll_append]
  exact hSteps

/- What holds first and after each action holds at the end. -/
theorem after_induction
    (hReady : shared.Ready)
    (holds :
      List (CounterAction ι) → SharedCounters ι → Prop)
    (hStart : holds [] shared)
    (hStep :
      ∀ before action now next,
        holds before now → Steps now action next →
          holds (before ++ [action]) next)
    (hOverflows :
      ¬Run.Overflows (step newKey) shared actions) :
    (shared.after newKey actions).Ready ∧
    holds actions (shared.after newKey actions) := by
  induction actions using List.reverseRecOn with
  | nil => exact ⟨hReady, hStart⟩
  | append_singleton before action ih =>
      have hBefore := hOverflows
      rw [Run.overflows_append_iff, not_or] at hBefore
      rcases ih hBefore.1 with ⟨hNow, hHolds⟩
      have hSteps := (steps_last hNow hOverflows).2
      exact ⟨hSteps.ready hNow,
        hStep before action _ _ hHolds hSteps⟩

/- All that is added is added up. -/
theorem CounterAction.added_append
    (i : ι)
    (actions others : List (CounterAction ι)) :
    CounterAction.added i (actions ++ others) =
      CounterAction.added i actions +
        CounterAction.added i others := by
  rw [CounterAction.added, List.map_append, List.sum_append]
  rfl

/- The handles stay at their entries. -/
theorem binding_after
    (hReady : shared.Ready)
    (hOverflows :
      ¬Run.Overflows (step newKey) shared actions)
    (i : ι) :
    ((shared.after newKey actions).counters i).binding =
      (shared.counters i).binding := by
  refine
    (after_induction hReady
      (fun _ now =>
        (now.counters i).binding =
          (shared.counters i).binding)
      rfl ?_ hOverflows).2
  intro _ _ _ _ hNow hSteps
  exact (hSteps.binding_eq i).trans hNow

/- A handle that is not sent gains all that is added to it. -/
theorem value_after
    (hReady : shared.Ready)
    (hOverflows :
      ¬Run.Overflows (step newKey) shared actions)
    {i : ι}
    (hUnsent :
      ∀ config, CounterAction.send i config ∉ actions) :
    ((shared.after newKey actions).counters i).value.toInt =
      (shared.counters i).value.toInt +
        CounterAction.added i actions := by
  refine
    (after_induction hReady
      (fun before now =>
        (∀ config, CounterAction.send i config ∉ before) →
          (now.counters i).value.toInt =
            (shared.counters i).value.toInt +
              CounterAction.added i before)
      (fun _ => (add_zero _).symm) ?_ hOverflows).2 hUnsent
  intro before action now next hNow hSteps hUnsent
  have hBefore :
      ∀ config, CounterAction.send i config ∉ before :=
    fun config hMem =>
      hUnsent config (List.mem_append_left _ hMem)
  have hAction :
      ∀ config, action ≠ .send i config :=
    fun config hEq =>
      hUnsent config (by simp [hEq])
  rw [hSteps.value_eq hAction, hNow hBefore,
    CounterAction.added_append, add_assoc]
  simp [CounterAction.added]

/- The handles stay ready. -/
theorem ready_after
    (hReady : shared.Ready)
    (hOverflows :
      ¬Run.Overflows (step newKey) shared actions) :
    (shared.after newKey actions).Ready :=
  (after_induction hReady (fun _ _ => True) trivial
    (fun _ _ _ _ _ _ => trivial) hOverflows).1

/- A handle is sent without error, and shows what is stored. -/
theorem sent_after
    {i : ι}
    {config : Config}
    (hReady : shared.Ready)
    (hOverflows :
      ¬Run.Overflows (step newKey) shared
        (actions ++ [.send i config])) :
    let now := shared.after newKey (actions ++ [.send i config])
    let binding := (shared.counters i).binding
    ((step newKey (.send i config)).run
        (shared.after newKey actions)).1 = .ok (.ok ()) ∧
    (now.counters i).pending.toInt = 0 ∧
    (now.counters i).value.toInt =
      now.stored binding.path binding.name := by
  have hBefore := Run.not_overflows_of_append hOverflows
  have hNow := ready_after hReady hBefore
  rcases steps_last hNow hOverflows with ⟨hResult, hSteps⟩
  refine ⟨hResult, ?_⟩
  rw [← binding_after hReady hBefore i]
  revert hSteps
  generalize shared.after newKey actions = before
  generalize shared.after newKey (actions ++ _) = now
  intro hSteps
  cases hSteps with
  | sent _ _ store counter hSent =>
      rcases hSent.counter with ⟨_, hPending, hStored, _⟩
      simp only [counters_put, if_true]
      refine ⟨hPending, ?_⟩
      exact congrArg (fun counter : Option (Integer .i64) =>
        (counter.getD .zero).toInt) hStored.symm

/-
  A handle shows what was stored when it was sent last, and
  what was added to it since.
-/
theorem value_since
    {i : ι}
    {config : Config}
    {rest : List (CounterAction ι)}
    (hReady : shared.Ready)
    (hOverflows :
      ¬Run.Overflows (step newKey) shared
        (actions ++ .send i config :: rest))
    (hUnsent : ∀ other, CounterAction.send i other ∉ rest) :
    let sent := shared.after newKey (actions ++ [.send i config])
    let binding := (shared.counters i).binding
    ((shared.after newKey
        (actions ++ .send i config :: rest)).counters
        i).value.toInt =
      sent.stored binding.path binding.name +
        CounterAction.added i rest := by
  intro sent binding
  rw [List.append_cons] at hOverflows ⊢
  have hFirst := Run.not_overflows_of_append hOverflows
  rw [Run.overflows_append_iff, not_or] at hOverflows
  have hShown := (sent_after hReady hFirst).2.2
  have hValue :=
    value_after (ready_after hReady hFirst) hOverflows.2
      hUnsent
  rw [after, Run.afterAll_append]
  exact hValue.trans
    (congrArg (· + CounterAction.added i rest) hShown)

variable [Fintype ι]

/- What is stored and unsent together is all that was added. -/
theorem conserved_after
    (hReady : shared.Ready)
    (hOverflows :
      ¬Run.Overflows (step newKey) shared actions)
    (path : Path)
    (name : String) :
    let now := shared.after newKey actions
    now.stored path name + now.unsent path name =
      shared.stored path name +
        ∑ i ∈ shared.handlesOf path name,
          ((shared.counters i).pending.toInt +
            CounterAction.added i actions) := by
  refine
    (after_induction hReady
      (fun before now =>
        now.handlesOf path name =
          shared.handlesOf path name ∧
        now.stored path name + now.unsent path name =
          shared.stored path name +
            ∑ i ∈ shared.handlesOf path name,
              ((shared.counters i).pending.toInt +
                CounterAction.added i before))
      ?_ ?_ hOverflows).2.2
  · refine ⟨rfl, congrArg (_ + ·) ?_⟩
    exact Finset.sum_congr rfl fun i _ => (add_zero _).symm
  · intro before action now next hNow hSteps
    rcases hNow with ⟨hHandles, hTotal⟩
    have hNext := hSteps.handlesOf_eq path name
    refine ⟨hNext.trans hHandles, ?_⟩
    rw [hSteps.conserved, hTotal, hHandles, add_assoc,
      ← Finset.sum_add_distrib]
    refine congrArg (_ + ·) (Finset.sum_congr rfl ?_)
    intro i _
    rw [CounterAction.added_append, add_assoc]
    simp [CounterAction.added]

------------------------------------------------------------
-- Agreement
------------------------------------------------------------

/-
  After some actions, no amount was lost or sent twice: what
  is stored and unsent of a counter is what it was first and
  all that was added since.  A handle just sent shows what
  is stored, and any other one what was stored when it was
  sent last, or shown first, and what was added to it since.
-/
structure Agrees
    (newKey : Nat → String)
    (shared : SharedCounters ι)
    (actions : List (CounterAction ι)) : Prop where
  bindings :
    ∀ i,
      ((shared.after newKey actions).counters i).binding =
        (shared.counters i).binding
  conserved :
    ∀ path name,
      let now := shared.after newKey actions
      now.stored path name + now.unsent path name =
        shared.stored path name +
          ∑ i ∈ shared.handlesOf path name,
            ((shared.counters i).pending.toInt +
              CounterAction.added i actions)
  sent :
    ∀ before i config,
      actions = before ++ [.send i config] →
      let now := shared.after newKey actions
      let binding := (shared.counters i).binding
      ((step newKey (.send i config)).run
          (shared.after newKey before)).1 = .ok (.ok ()) ∧
      (now.counters i).pending.toInt = 0 ∧
      (now.counters i).value.toInt =
        now.stored binding.path binding.name
  since :
    ∀ before i config rest,
      actions = before ++ .send i config :: rest →
      (∀ other, CounterAction.send i other ∉ rest) →
      let sent :=
        shared.after newKey (before ++ [.send i config])
      let binding := (shared.counters i).binding
      ((shared.after newKey actions).counters
          i).value.toInt =
        sent.stored binding.path binding.name +
          CounterAction.added i rest
  unsent :
    ∀ i,
      (∀ other, CounterAction.send i other ∉ actions) →
      ((shared.after newKey actions).counters
          i).value.toInt =
        (shared.counters i).value.toInt +
          CounterAction.added i actions

/-
  Handles of counters with valid bindings agree with their
  store, as long as no sum is out of range.
-/
theorem agrees_of_not_overflows
    (newKey : Nat → String)
    (shared : SharedCounters ι)
    (hReadable : shared.store.poisoned = false)
    (hValid : ∀ i, (shared.counters i).binding.IsValid)
    (actions : List (CounterAction ι))
    (hOverflows :
      ¬Run.Overflows (step newKey) shared actions) :
    shared.Agrees newKey actions := by
  have hReady : shared.Ready := ⟨hReadable, hValid⟩
  constructor
  case bindings => exact binding_after hReady hOverflows
  case conserved => exact conserved_after hReady hOverflows
  case sent =>
    intro before i config hActions
    subst hActions
    exact sent_after hReady hOverflows
  case since =>
    intro before i config rest hActions hUnsent
    subst hActions
    exact value_since hReady hOverflows hUnsent
  case unsent =>
    intro i hUnsent
    exact value_after hReady hOverflows hUnsent

/- Two handles of a counter within a map are sent by turns. -/
theorem agrees_of_not_overflows_turns :
    let path : Path := ⟨⟨"b", "t", "k"⟩, ["m"]⟩
    let five : Integer .i64 := ⟨5, by decide, by decide⟩
    let three : Integer .i64 := ⟨3, by decide, by decide⟩
    let shared : SharedCounters Bool :=
      ⟨.empty, fun _ => .bound (.ofName path "n")⟩
    let actions : List (CounterAction Bool) :=
      [.increase true five, .send true .unset,
        .increase false three, .increase true five,
        .send false .unset]
    let newKey (_ : Nat) := "new"
    shared.store.poisoned = false ∧
    (∀ i, (shared.counters i).binding.IsValid) ∧
    ¬Run.Overflows (step newKey) shared actions ∧
    (shared.after newKey actions).stored path "n" = 8 ∧
    shared.Agrees newKey actions := by
  intro path five three shared actions newKey
  have hValid : ∀ i, (shared.counters i).binding.IsValid := by
    intro i
    constructor
    · change "n" ≠ ""
      decide
    · change path.location.IsComplete
      decide
  have hOverflows :
      ¬Run.Overflows (step newKey) shared actions := by
    decide +kernel
  have hStored :
      (shared.after newKey actions).stored path "n" = 8 := by
    decide +kernel
  exact ⟨rfl, hValid, hOverflows, hStored,
    agrees_of_not_overflows newKey shared rfl hValid actions
      hOverflows⟩

end SharedCounters

end CrdtDoc
