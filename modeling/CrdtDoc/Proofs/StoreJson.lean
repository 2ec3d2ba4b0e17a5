import CrdtDoc.Json.Store
import CrdtDoc.Proofs.JsonReading
import CrdtDoc.Proofs.LocationOrder

/-
  This file shows that a store is found again in its JSON
  text, in whatever order its maps are listed there, unless
  these nest too deep to be read.  The store found goes on as
  the one written would, once it issues the keys that were
  left to be issued.

  Key definitions include:
    * `CrdtMap.height`
    * `Store.Resumes`
    * `Store.results`

  Main declarations:
    * `Store.ofJson_render`
    * `Store.depth_ofObjects_le`
    * `Store.Resumes.execute`
    * `Store.Resumes.results_eq`
    * `Store.resumes_from_json`
-/

namespace CrdtDoc

------------------------------------------------------------
-- Texts of Stores
------------------------------------------------------------

namespace Json.Reader

/- A stored map is found with its version. -/
theorem recovers_storedMap
    (stored : StoredMap)
    (hWell : stored.map.WellFormed) :
    storedMap.Recovers (ofStoredMap stored) stored := by
  have hMap := recovers_map stored.map hWell
  have hVersion := recovers_integer stored.version
  refine recovers_record rfl (by decide) ?_ ?_
  · simp only [List.forall_mem_cons]
    exact ⟨hMap.written, hVersion.written,
      List.forall_mem_nil _⟩
  · intro depth parts hParts
    simp only [List.forall_mem_cons] at hParts
    rcases hParts with ⟨hFirst, hSecond, _⟩
    simp only [required, hFirst, hSecond, Option.bind_some,
      hMap.read, hVersion.read, Option.bind_eq_bind,
      bind_ite_le, ite_le_ite_le, List.map_cons,
      List.map_nil, itemsDepth, Nat.max_zero]
    rfl

/- Stored maps are listed as pairs. -/
theorem ofObjects_eq
    (listed : List (Location × StoredMap)) :
    ofObjects listed =
      ofFields
        [("objects", .list (listed.map fun entry =>
          .list [ofLocation entry.1,
            ofStoredMap entry.2]))] := by
  rfl

/- Stored maps are found with their locations. -/
theorem recovers_objects
    {listed : List (Location × StoredMap)}
    (hWell : ∀ entry ∈ listed, entry.2.map.WellFormed) :
    objects.Recovers (ofObjects listed) listed := by
  have hListed :
      (list (pair location storedMap)).Recovers
        (.list (listed.map fun entry =>
          .list [ofLocation entry.1, ofStoredMap entry.2]))
        listed :=
    recovers_list fun entry hMem =>
      recovers_pair (recovers_location entry.1)
        (recovers_storedMap entry.2 (hWell entry hMem))
  rw [ofObjects_eq]
  refine recovers_record rfl (by decide) ?_ ?_
  · rw [List.forall_mem_singleton]
    exact hListed.written
  · intro depth parts hParts
    have hFirst := hParts _ List.mem_cons_self
    rw [required, hFirst, Option.bind_some, hListed.read,
      List.map_cons, List.map_nil, itemsDepth, itemsDepth,
      Nat.max_zero]

end Json.Reader

namespace Store

variable {newKey : Nat → String} {store : Store}

/-
  The text of a store spells its maps, in whatever order they
  are listed, and these are read unless they nest too deep.
-/
theorem ofJson_render
    (hStore : store.IsOrdered)
    {listed : List (Location × StoredMap)}
    (hListed : listed.Perm store.objects) :
    let json := Json.ofObjects listed
    Json.parse? json.render = some json ∧
    ofJson json.render =
      if json.depth ≤ 127 then
        .ok { empty with objects := store.objects }
      else .error (.json .malformed) := by
  intro json
  have hRecovers :
      Json.Reader.objects.Recovers json listed :=
    Json.Reader.recovers_objects fun entry hMem =>
      hStore.names entry (hListed.mem_iff.mp hMem)
  refine ⟨Json.parse?_render hRecovers.written, ?_⟩
  rw [ofJson, hRecovers.read?_render]
  by_cases hDepth : json.depth ≤ 127
  · have hObjects :=
      objects_ofObjects hStore.locations hListed
    rw [if_pos hDepth, if_pos hDepth, ← hObjects]
    rfl
  · rw [if_neg hDepth, if_neg hDepth]

end Store

------------------------------------------------------------
-- Depths of Stores
------------------------------------------------------------

mutual
/- The number of maps within each other. -/
def CrdtMap.height : CrdtMap → Nat
  | ⟨_, _, _, _, maps⟩ => maxHeight maps + 1

/- The greatest height of a map of a section. -/
def CrdtMap.maxHeight : List (String × CrdtMap) → Nat
  | [] => 0
  | (_, map) :: rest => max map.height (maxHeight rest)
end

namespace Json

/- Items are as deep as the deepest of them. -/
theorem itemsDepth_le
    {items : List Json}
    {bound : Nat}
    (hItems : ∀ item ∈ items, item.depth ≤ bound) :
    itemsDepth items ≤ bound := by
  induction items with
  | nil => exact Nat.zero_le bound
  | cons item rest ih =>
      rcases List.forall_mem_cons.mp hItems
        with ⟨hFirst, hRest⟩
      exact Nat.max_le.mpr ⟨hFirst, ih hRest⟩

/- A list is one deeper than its items. -/
theorem depth_list_le
    {items : List Json}
    {bound : Nat}
    (hItems : ∀ item ∈ items, item.depth ≤ bound) :
    (list items).depth ≤ bound + 1 := by
  rw [depth]
  exact Nat.succ_le_succ (itemsDepth_le hItems)

/- A record is one deeper than its parts. -/
theorem depth_ofFields_le
    {fields : List (String × Json)}
    {bound : Nat}
    (hFields : ∀ field ∈ fields, field.2.depth ≤ bound) :
    (ofFields fields).depth ≤ bound + 1 := by
  rw [depth_ofFields]
  apply Nat.succ_le_succ
  apply itemsDepth_le
  rw [List.forall_mem_map]
  exact hFields

/- A section is one deeper than its values. -/
theorem depth_ofEntries_le
    {α : Type}
    {write : α → Json}
    {values : Entries α}
    {bound : Nat}
    (hValues :
      ∀ entry ∈ values, (write entry.2).depth ≤ bound) :
    (ofEntries write values).depth ≤ bound + 1 := by
  apply depth_ofFields_le
  rw [List.forall_mem_map]
  exact hValues

/- A byte string is a list of plain values. -/
theorem depth_ofBytes_le
    (value : Bytes) :
    (ofBytes value).depth ≤ 1 := by
  apply depth_list_le
  rw [List.forall_mem_map]
  exact fun _ _ => Nat.le_refl 0

/- Several byte strings are a list of lists. -/
theorem depth_ofMembers_le
    (members : List Bytes) :
    (ofMembers members).depth ≤ 2 := by
  apply depth_list_le
  rw [List.forall_mem_map]
  exact fun member _ => depth_ofBytes_le member

mutual
/- Each map takes two objects, and members of sets two lists. -/
theorem depth_ofMap_le :
    (value : CrdtMap) →
      (ofMap value).depth ≤ 2 * value.height + 2
  | ⟨registers, counters, sets, flags, maps⟩ => by
      have hRegisters :
          (ofEntries ofBytes registers).depth ≤ 2 :=
        depth_ofEntries_le fun entry _ =>
          depth_ofBytes_le entry.2
      have hCounters :
          (ofEntries ofInteger counters).depth ≤ 1 :=
        depth_ofEntries_le fun _ _ => Nat.le_refl 0
      have hSets : (ofEntries ofMembers sets).depth ≤ 3 :=
        depth_ofEntries_le fun entry _ =>
          depth_ofMembers_le entry.2
      have hFlags : (ofEntries .bool flags).depth ≤ 1 :=
        depth_ofEntries_le fun _ _ => Nat.le_refl 0
      have hMaps := depth_ofEntries_le (depth_ofMaps_le maps)
      rw [← Reader.ofMaps_eq] at hMaps
      rw [ofMap, CrdtMap.height]
      apply depth_ofFields_le
      simp only [List.forall_mem_cons]
      exact ⟨by omega, by omega, by omega, by omega,
        by omega, List.forall_mem_nil _⟩

/- So do the maps of a section. -/
theorem depth_ofMaps_le :
    (maps : List (String × CrdtMap)) →
      ∀ entry ∈ maps,
        (ofMap entry.2).depth ≤
          2 * CrdtMap.maxHeight maps + 2
  | [] => List.forall_mem_nil _
  | (name, value) :: rest => by
      have hFirst := depth_ofMap_le value
      have hRest := depth_ofMaps_le rest
      rw [CrdtMap.maxHeight, List.forall_mem_cons]
      constructor
      · change (ofMap value).depth ≤ _
        omega
      · intro entry hMem
        have hEntry := hRest entry hMem
        omega
end

end Json

namespace Store

variable {newKey : Nat → String} {store : Store}

/- Maps that are not too high can be read from a text. -/
theorem depth_ofObjects_le
    {listed : List (Location × StoredMap)}
    (hHeight : ∀ entry ∈ listed, entry.2.map.height ≤ 60) :
    (Json.ofObjects listed).depth ≤ 127 := by
  apply Json.depth_ofFields_le
  rw [List.forall_mem_singleton]
  apply Json.depth_list_le
  rw [List.forall_mem_map]
  intro entry hMem
  have hEntry := hHeight entry hMem
  have hMap := Json.depth_ofMap_le entry.2.map
  have hLocation : (Json.ofLocation entry.1).depth ≤ 1 := by
    apply Json.depth_ofFields_le
    simp only [List.forall_mem_cons]
    exact ⟨Nat.le_refl 0, Nat.le_refl 0, Nat.le_refl 0,
      List.forall_mem_nil _⟩
  have hStored : (Json.ofStoredMap entry.2).depth ≤ 123 := by
    apply Json.depth_ofFields_le
    simp only [List.forall_mem_cons]
    exact ⟨by omega, Nat.zero_le _, List.forall_mem_nil _⟩
  apply Json.depth_list_le
  simp only [List.forall_mem_cons]
  exact ⟨by omega, by omega, List.forall_mem_nil _⟩

------------------------------------------------------------
-- Resumed Stores
------------------------------------------------------------

/- The keys that are left once some were issued. -/
def keysAfter
    (newKey : Nat → String)
    (issued : Nat) : Nat → String :=
  fun further => newKey (issued + further)

/-
  A store goes on from another one that issued some keys: it
  has the same maps, and counts only the keys issued since.
-/
structure Resumes
    (issued : Nat)
    (store resumed : Store) : Prop where
  objects : resumed.objects = store.objects
  poisoned : resumed.poisoned = store.poisoned
  issuedKeys : issued + resumed.issuedKeys = store.issuedKeys

variable {issued : Nat} {resumed : Store}

/- An update that is accepted comes to the same in both. -/
theorem Resumes.execute_change
    (hResumes : store.Resumes issued resumed)
    (newKey : Nat → String)
    (hPoisoned : store.poisoned = false)
    {command : Change}
    (hRefusal : refusal? command = none) :
    let left := keysAfter newKey issued
    resumed.result left (.change command) =
      store.result newKey (.change command) ∧
    (store.next newKey (.change command)).Resumes issued
      (resumed.next left (.change command)) := by
  intro left
  rcases hResumes with ⟨hObjects, hSame, hIssued⟩
  have hKeyed :
      command.location.keyed left resumed.issuedKeys =
        command.location.keyed newKey store.issuedKeys := by
    rw [← hIssued]
    rfl
  have hGenerated :
      command.location.generated? left resumed.issuedKeys =
        command.location.generated? newKey
          store.issuedKeys := by
    rw [← hIssued]
    rfl
  have hNext :
      issued +
          command.location.issuedAfter resumed.issuedKeys =
        command.location.issuedAfter store.issuedKeys := by
    rw [← hIssued]
    unfold Location.issuedAfter
    split <;> rfl
  unfold result next
  rw [Store.execute_change hPoisoned hRefusal,
    Store.execute_change (hSame.trans hPoisoned) hRefusal,
    hKeyed, hGenerated, hObjects]
  split
  · exact ⟨rfl, rfl, hSame, hNext⟩
  · exact ⟨rfl, hObjects, rfl, hNext⟩

/- A command comes to the same in both stores. -/
theorem Resumes.execute
    (hResumes : store.Resumes issued resumed)
    (newKey : Nat → String)
    (command : Command) :
    let left := keysAfter newKey issued
    resumed.result left command =
      store.result newKey command ∧
    (store.next newKey command).Resumes issued
      (resumed.next left command) := by
  intro left
  have hAccepted := hResumes.execute_change newKey
  rcases hResumes with ⟨hObjects, hSame, hIssued⟩
  cases hStore : store.poisoned with
  | true =>
      have hPoisoned := hSame.trans hStore
      unfold result next
      rw [execute_poisoned_eq hStore,
        execute_poisoned_eq hPoisoned]
      exact ⟨rfl, hObjects, hSame, hIssued⟩
  | false =>
      have hPoisoned := hSame.trans hStore
      cases command with
      | fetch command =>
          unfold result next
          rw [execute_fetch hStore, execute_fetch hPoisoned,
            hObjects]
          exact ⟨rfl, hObjects, hSame, hIssued⟩
      | delete command =>
          unfold result next
          rw [execute_delete hStore,
            execute_delete hPoisoned, hObjects]
          exact ⟨rfl, rfl, hSame, hIssued⟩
      | change command =>
          cases hRefusal : refusal? command with
          | none => exact hAccepted hStore hRefusal
          | some error =>
              unfold result next
              rw [execute_refused hRefusal,
                execute_refused hRefusal]
              exact ⟨rfl, hObjects, hSame, hIssued⟩

/- What the commands among several actions come to. -/
def results
    (newKey : Nat → String) :
    Store →
      List Action →
      List (Except Abort (Except TransportError Response))
  | _, [] => []
  | store, .send command :: rest =>
      store.result newKey command ::
        results newKey (store.next newKey command) rest
  | store, .takeLog :: rest =>
      results newKey store.takeLog.2 rest

/- All later actions come to the same with both stores. -/
theorem Resumes.results_eq
    (hResumes : store.Resumes issued resumed)
    (later : List Action) :
    let left := keysAfter newKey issued
    resumed.results left later =
      store.results newKey later ∧
    (store.after newKey later).Resumes issued
      (resumed.after left later) := by
  intro left
  unfold after
  induction later generalizing store resumed with
  | nil => exact ⟨rfl, hResumes⟩
  | cons action rest ih =>
      rw [List.foldl_cons, List.foldl_cons]
      cases action with
      | send command =>
          rcases hResumes.execute newKey command
            with ⟨hResult, hNext⟩
          rcases ih hNext with ⟨hRest, hLast⟩
          refine ⟨?_, hLast⟩
          rw [results, results, hResult, hRest]
      | takeLog =>
          exact ih ⟨hResumes.objects, hResumes.poisoned,
            hResumes.issuedKeys⟩

/- The maps that can be read are the same in both stores. -/
theorem Resumes.readable?_eq
    (hResumes : store.Resumes issued resumed) :
    resumed.readable? = store.readable? := by
  rw [readable?, readable?, hResumes.poisoned,
    hResumes.objects]

/-
  After any actions without a stop, a store has a JSON text.
  It spells the maps of the store, in whatever order they are
  listed.  If these nest at most 127 lists and objects, as
  they do where no more than 60 maps are within each other,
  the text is read as a store with the same maps and versions
  and without a log, and all later actions come to the same
  with that store and with the one written.  Otherwise the
  text is refused.
-/
theorem resumes_from_json
    {newKey : Nat → String}
    {actions : List Action}
    (hStops : ¬Stops newKey empty actions) :
    let store := empty.after newKey actions
    let restored := { empty with objects := store.objects }
    let left := keysAfter newKey store.issuedKeys
    store.toJson =
      .ok (Json.ofObjects store.objects).render ∧
    (∀ listed : List (Location × StoredMap),
      listed.Perm store.objects →
      let json := Json.ofObjects listed
      Json.parse? json.render = some json ∧
      (ofJson json.render =
        if json.depth ≤ 127 then .ok restored
        else .error (.json .malformed)) ∧
      ((∀ entry ∈ store.objects,
          entry.2.map.height ≤ 60) →
        json.depth ≤ 127)) ∧
    ∀ later,
      restored.results left later =
        store.results newKey later ∧
      (restored.after left later).readable? =
        (store.after newKey later).readable? := by
  intro store restored left
  have hReadable :=
    (represents_after represents_start hStops).readable
  have hOrdered := @isOrdered_after newKey _ isOrdered_empty
    actions
  refine ⟨?_, ?_, ?_⟩
  · rw [toJson, readable?, hReadable]
    rfl
  · intro listed hListed
    rcases ofJson_render hOrdered hListed
      with ⟨hParse, hRead⟩
    refine ⟨hParse, hRead, ?_⟩
    intro hHeight
    exact depth_ofObjects_le fun entry hMem =>
      hHeight entry (hListed.mem_iff.mp hMem)
  · intro later
    have hResumes :
        store.Resumes store.issuedKeys restored :=
      ⟨rfl, hReadable.symm, rfl⟩
    rcases hResumes.results_eq later with ⟨hResults, hLast⟩
    exact ⟨hResults, hLast.readable?_eq⟩

/- An update under a new key, and one of what was stored. -/
theorem resumes_from_json_twice :
    let inner : Update :=
      { Update.empty with
        registers := [("r", [97, 98])]
        adds := [("s", [[2], [1]])] }
    let update : Update :=
      { Update.empty with
        counters := [("n", ⟨-1, by decide, by decide⟩)]
        flags := [("f", true)]
        maps := [("in", inner)] }
    let send (key : String) : Action :=
      .send (.change
        { location := ⟨"b", "t", key⟩
          update
          context := none
          returnBody := true
          options := .unset })
    let newKey (issued : Nat) :=
      if issued = 0 then "first" else "other"
    let actions := [send "", send "first"]
    let store := empty.after newKey actions
    let restored := { empty with objects := store.objects }
    let left := keysAfter newKey store.issuedKeys
    ¬Stops newKey empty actions ∧
    ofJson (Json.ofObjects store.objects).render =
      .ok restored ∧
    restored.results left [send "", send "first"] =
      store.results newKey [send "", send "first"] := by
  intro inner update send newKey actions store restored left
  have hStops : ¬Stops newKey empty actions := by
    intro hStops
    have hPoisoned : store.poisoned = true :=
      poisoned_of_stops hStops
    revert hPoisoned
    decide +kernel
  rcases resumes_from_json hStops with ⟨_, hText, hLater⟩
  rcases hText store.objects (List.Perm.refl _)
    with ⟨_, hRead, hDepth⟩
  have hHeight :
      ∀ entry ∈ store.objects,
        entry.2.map.height ≤ 60 := by
    decide +kernel
  rw [if_pos (hDepth hHeight)] at hRead
  exact ⟨hStops, hRead, (hLater _).1⟩

/- A flag within 61 maps can be written and not be read. -/
theorem refused_from_json_deep :
    let update : Update :=
      (List.replicate 61 "m").foldr
        (fun name inner =>
          { Update.empty with maps := [(name, inner)] })
        { Update.empty with flags := [("f", true)] }
    let send : Action :=
      .send (.change
        { location := ⟨"b", "t", "k"⟩
          update
          context := none
          returnBody := false
          options := .unset })
    let newKey (_ : Nat) := "new"
    let store := empty.after newKey [send]
    ¬Stops newKey empty [send] ∧
    ∃ text,
      store.toJson = .ok text ∧
      Json.parse? text =
        some (Json.ofObjects store.objects) ∧
      ofJson text = .error (.json .malformed) := by
  intro update send newKey store
  have hReadable : store.poisoned = false := by
    decide +kernel
  have hStops : ¬Stops newKey empty [send] := by
    intro hStops
    have hPoisoned : store.poisoned = true :=
      poisoned_of_stops hStops
    rw [hReadable] at hPoisoned
    cases hPoisoned
  have hStore : store.IsOrdered :=
    isOrdered_after isOrdered_empty [send]
  have hDepth : (Json.ofObjects store.objects).depth = 128 := by
    decide +kernel
  rcases ofJson_render hStore (List.Perm.refl _)
    with ⟨hParse, hRead⟩
  rw [hDepth] at hRead
  refine ⟨hStops, _, ?_, hParse, hRead⟩
  rw [toJson, readable?, hReadable]
  rfl

end Store

end CrdtDoc
