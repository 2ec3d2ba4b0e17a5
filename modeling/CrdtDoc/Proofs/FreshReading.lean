import CrdtDoc.Proofs.EntryReading
import CrdtDoc.Proofs.Restoration
import CrdtDoc.Proofs.StoredForm
import CrdtDoc.Proofs.TimestampBytes

/-
  This file shows what is read from the registers, sets and
  handles of a fresh map: scalars, lists, arrays and slots
  come back from the entries that they are stored as.

  Main declarations:
    * `Reading.orKeep_of_register`
    * `Source.timestamp_eq_ok_iff`
    * `FieldType.decode_of_not_isRegular`
    * `Source.exists_items_restored`
    * `Source.array_of_register`
    * `Slot.restored_load`
-/

namespace CrdtDoc

------------------------------------------------------------
-- Registers and Sets
------------------------------------------------------------

/- A fresh set has the members added, in their order. -/
theorem Update.Entry.exists_insertAll_added
    {members : List Bytes}
    (hMembers : members ≠ []) :
    ∃ set,
      (added members).map (Members.insertAll []) =
        some set ∧
      Members.Ascending set ∧
      ∀ member, member ∈ set ↔ member ∈ members := by
  unfold added
  rw [if_neg hMembers]
  refine ⟨_, rfl, ?_, ?_⟩
  · exact Members.ascending_insertAll .nil _
  · intro member
    rw [Members.mem_insertAll, mem_foldl_withMember]
    simp only [List.not_mem_nil, false_or]

section Entries

variable {map : CrdtMap} {name : String}

/- A register of a fresh map has the bytes written. -/
theorem CrdtMap.register?_of_entry
    {bytes : Bytes}
    (hEntry :
      map.entry name =
        (Update.Entry.ofRegister bytes).fresh) :
    map.register? name = some bytes :=
  congrArg Entry.register hEntry

/- A set of a fresh map is made of the members added. -/
theorem CrdtMap.set?_of_entry
    {entry : Update.Entry}
    (hEntry : map.entry name = entry.fresh) :
    map.set? name =
      entry.adds.map (Members.insertAll []) :=
  congrArg Entry.set hEntry

/- A map of a fresh map is made of what was written to it. -/
theorem CrdtMap.map?_of_entry
    {child : Update}
    (hEntry :
      map.entry name = (Update.Entry.ofMap child).fresh) :
    map.map? name = some child.fresh :=
  congrArg Entry.map hEntry

end Entries

/- What a register spells is read over any other value. -/
theorem Reading.orKeep_of_register
    {α : Type}
    {map : CrdtMap}
    {name : String}
    {bytes : Bytes}
    (hRegister : map.register? name = some bytes)
    {read : Bytes → Option α}
    {value : α}
    (hRead : read bytes = some value)
    (old : α) :
    Reading.orKeep old ((map.register? name).bind read) =
      (.ok (), value) := by
  rw [hRegister, Option.bind_some, hRead]
  rfl

section Timestamps

variable {source : Source} {name : String}

/- A point in time is read from the bytes of its register. -/
theorem Source.timestamp_of_register
    {bytes : Bytes}
    (hRegister : source.map.register? name = some bytes)
    (old : Timestamp) :
    source.timestamp name old =
      (Timestamp.ofBytes bytes).mapError
        (.invalidTimestamp name) := by
  unfold Source.timestamp
  rw [hRegister]

/- A regular point in time is read from its bytes. -/
theorem Source.timestamp_eq_ok_iff
    {time old new : Timestamp}
    (hRegister :
      source.map.register? name = some time.toBytes) :
    source.timestamp name old = .ok new ↔
      new = time ∧ time.IsRegular := by
  rw [timestamp_of_register hRegister,
    ← Timestamp.ofBytes_toBytes_eq_ok_iff]
  cases Timestamp.ofBytes time.toBytes <;>
    simp [Except.mapError]

/- A leap second where no minute ends cannot be read. -/
theorem FieldType.decode_of_not_isRegular
    {time : Timestamp}
    (hRegister :
      source.map.register? name = some time.toBytes)
    (hRegular : ¬time.IsRegular)
    (old : Timestamp) :
    FieldType.decode .timestamp name source old =
      (.error (.invalidTimestamp name .outOfRange), old) := by
  have hTime :
      source.timestamp name old =
        .error (.invalidTimestamp name .outOfRange) := by
    rw [Source.timestamp_of_register hRegister,
      Timestamp.ofBytes_toBytes_of_not hRegular]
    rfl
  exact congrArg (Reading.replace old) hTime

end Timestamps

------------------------------------------------------------
-- Lists
------------------------------------------------------------

/-
  The items that members stand for are read from a set of
  these members.
-/
theorem Element.exists_mapM_of_set
    {element : Element}
    {name : String}
    {items : List element.Value}
    {members set : List Bytes}
    (hItems :
      items.mapM (element.toMember name) = .ok members)
    (hSet : ∀ member, member ∈ set ↔ member ∈ members) :
    ∃ new,
      set.mapM (element.ofMember name) = .ok new ∧
      new.mapM (element.toMember name) = .ok set ∧
      ∀ item, item ∈ new ↔ item ∈ items := by
  have hStands :
      ∀ member ∈ set, ∃ item,
        element.toMember name item = .ok member := by
    intro member hMember
    rcases exists_item_of_mem hItems
      ((hSet member).mp hMember) with ⟨item, _, hItem⟩
    exact ⟨item, hItem⟩
  rcases exists_mapM_ofMember hStands
    with ⟨new, hRead, hWritten⟩
  refine ⟨new, hRead, hWritten, ?_⟩
  intro item
  constructor
  · intro hItem
    rcases exists_result_of_mem hWritten hItem
      with ⟨member, hMember, hSame⟩
    rcases exists_item_of_mem hItems
      ((hSet member).mp hMember)
      with ⟨other, hOther, hOtherSame⟩
    rw [toMember_inj hSame hOtherSame]
    exact hOther
  · intro hItem
    rcases exists_result_of_mem hItems hItem
      with ⟨member, hMember, hSame⟩
    rcases exists_item_of_mem hWritten
      ((hSet member).mpr hMember)
      with ⟨other, hOther, hOtherSame⟩
    rw [toMember_inj hSame hOtherSame]
    exact hOther

section Sets

variable {source : Source} {name : String} {element : Element}
variable {items : List element.Value}

/- A list that is stored as a set is read from its set. -/
theorem Source.items_eq_of_set
    (hShape :
      element.shape = .scalar ∨ element.shape = .nested)
    (old : List element.Value) :
    source.items name element old =
      (source.map.set? name).elim (.ok old)
        (fun members =>
          members.mapM (element.ofMember name)) := by
  unfold items
  rcases hShape with hShape | hShape
  · rw [hShape]
    cases source.map.set? name <;> rfl
  · rw [hShape]
    cases source.map.set? name <;> rfl

/- A list that was stored as a set is read from it again. -/
theorem Source.exists_set_restored
    (hShape :
      element.shape = .scalar ∨ element.shape = .nested)
    {members : List Bytes}
    (hMembers :
      items.mapM (element.toMember name) = .ok members)
    (hSet :
      source.map.set? name =
        (Update.Entry.added members).map
          (Members.insertAll []))
    (old : List element.Value) :
    ∃ new,
      source.items name element old = .ok new ∧
      (items = [] → new = old) ∧
      (items ≠ [] →
        (∀ item, item ∈ new ↔ item ∈ items) ∧
        ∃ members,
          new.mapM (element.toMember name) = .ok members ∧
          Members.Ascending members) := by
  rw [items_eq_of_set hShape, hSet]
  by_cases hItems : items = []
  · subst hItems
    cases hMembers
    refine ⟨old, rfl, fun _ => rfl, ?_⟩
    intro hNot
    exact absurd rfl hNot
  · have hNotNil : members ≠ [] := by
      intro hNil
      subst hNil
      apply hItems
      exact List.forall₂_nil_right_iff.mp
        (mapM_eq_ok_iff.mp hMembers)
    rcases Update.Entry.exists_insertAll_added hNotNil
      with ⟨set, hFresh, hAscending, hSame⟩
    rcases Element.exists_mapM_of_set hMembers hSame
      with ⟨new, hRead, hWritten, hNew⟩
    rw [hFresh]
    refine ⟨new, hRead, ?_, ?_⟩
    · intro hNil
      exact absurd hNil hItems
    · intro _
      exact ⟨hNew, set, hWritten, hAscending⟩

/- A list is read from its stored form. -/
theorem Source.exists_items_restored
    {entry : Update.Entry}
    (hStored : element.ListStoredAs items name entry)
    (hEntry : source.map.entry name = entry.fresh)
    (old : List element.Value) :
    ∃ new,
      source.items name element old = .ok new ∧
      element.Restored name old items new := by
  unfold Element.Restored
  rcases hStored.register_or_set
    with ⟨hShape, hRegister⟩ |
      ⟨hShape, members, hMembers, hAdds⟩
  · subst hRegister
    rw [hShape]
    refine ⟨items, ?_, rfl⟩
    unfold Source.items
    rw [hShape, CrdtMap.register?_of_entry hEntry]
    simp only [Element.listOf_bytes hShape]
  · subst hAdds
    have hSet := CrdtMap.set?_of_entry hEntry
    rcases hShape with hShape | hShape
    · rw [hShape]
      exact exists_set_restored (Or.inl hShape) hMembers hSet
        old
    · rw [hShape]
      exact exists_set_restored (Or.inr hShape) hMembers hSet
        old

end Sets

/- An array is read from its register over any other one. -/
theorem Source.array_of_register
    {source : Source}
    {name : String}
    {element : Element}
    {length : Nat}
    (hBytes : length = 0 ∨ element.shape = .byte)
    {items : Element.Sized element.Value length}
    (hRegister :
      source.map.register? name =
        some (element.bytes items.val))
    (old : Element.Sized element.Value length) :
    source.array name element length old = .ok items := by
  unfold Source.array
  split
  · rename_i hZero
    subst hZero
    have hOld := List.eq_nil_of_length_eq_zero old.property
    have hItems :=
      List.eq_nil_of_length_eq_zero items.property
    exact congrArg Except.ok
      (Subtype.ext (hOld.trans hItems.symm))
  · rename_i hLength
    have hByte : element.shape = .byte := by
      rcases hBytes with hZero | hByte
      · exact absurd hZero hLength
      · exact hByte
    rw [if_neg (not_not_intro hByte), hRegister,
      Option.bind_some, Element.arrayOf?_bytes hBytes]
    rfl

------------------------------------------------------------
-- Slots
------------------------------------------------------------

/- The items of a fresh set are the members that are none. -/
theorem SetHandle.storedItems_of_added
    {map : CrdtMap}
    {name : String}
    {members : List Bytes}
    (hSet :
      map.set? name =
        (Update.Entry.added members).map
          (Members.insertAll [])) :
    Members.Ascending (storedItems map name) ∧
    ∀ item,
      item ∈ storedItems map name ↔
        item ≠ [] ∧ item ∈ members := by
  unfold storedItems
  rw [hSet]
  by_cases hMembers : members = []
  · subst hMembers
    refine ⟨.nil, ?_⟩
    intro item
    constructor
    · intro hItem
      cases hItem
    · rintro ⟨_, hItem⟩
      cases hItem
  · rcases Update.Entry.exists_insertAll_added hMembers
      with ⟨set, hFresh, hAscending, hSame⟩
    rw [hFresh, Option.getD_some]
    refine ⟨hAscending.filter _, ?_⟩
    intro item
    rw [List.mem_filter, hSame, and_comm]
    refine and_congr ?_ Iff.rfl
    cases item <;> simp

/- A slot is read from its stored form. -/
theorem Slot.restored_load
    {kind : HandleKind}
    {slot : Slot kind}
    {map : CrdtMap}
    {binding : Binding}
    (hEntry : map.entry binding.name = slot.written.fresh) :
    Slot.Restored binding slot
      (some (kind.load binding map)) := by
  cases kind with
  | counter =>
      have hCounter :
          map.counter? binding.name =
            some (slot.elim .zero Counter.pending) :=
        congrArg CrdtMap.Entry.counter hEntry
      change some (Counter.load binding map) = _
      rw [Counter.load, hCounter, Option.getD_some]
  | set =>
      rcases SetHandle.storedItems_of_added
        (CrdtMap.set?_of_entry hEntry)
        with ⟨hAscending, hItems⟩
      refine ⟨_, rfl, hAscending, ?_⟩
      intro item
      rw [hItems]
      apply and_congr_right
      intro hItem
      cases slot with
      | none => simp [hItem]
      | some handle => exact Iff.rfl
  | flag =>
      have hFlag :
          map.flag? binding.name = slot.map Flag.state :=
        congrArg CrdtMap.Entry.flag hEntry
      change some (Flag.load binding map) = _
      rw [Flag.load, hFlag]
      cases slot <;> rfl
  | register =>
      have hRegister :
          map.register? binding.name =
            slot.map Register.value :=
        congrArg CrdtMap.Entry.register hEntry
      change some (Register.load binding map) = _
      rw [Register.load, hRegister]
      cases slot <;> rfl

end CrdtDoc
