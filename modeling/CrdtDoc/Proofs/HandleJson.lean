import CrdtDoc.Json.Handle
import CrdtDoc.Proofs.SendOutcome
import CrdtDoc.Proofs.StoreJson

/-
  This file shows that the JSON text of a handle keeps its
  value and nothing else.  The text is read as a handle of no
  entry with that value, whatever was bound or unsent before,
  so different values have different texts.

  Key definitions include:
    * `HandleKind.SameValue`
    * `HandleKind.detached`

  Main declarations:
    * `Json.Reader.recovers_handle`
    * `HandleKind.ofJson_toJson`
    * `HandleKind.json_keeps_value`
-/

namespace CrdtDoc

------------------------------------------------------------
-- Values of Handles
------------------------------------------------------------

namespace HandleKind

/- Two handles have the same value. -/
def SameValue :
    (kind : HandleKind) → kind.Handle → kind.Handle → Prop
  | .counter, a, b => Counter.value a = Counter.value b
  | .set, a, b => SetHandle.items a = SetHandle.items b
  | .flag, a, b => Flag.state a = Flag.state b
  | .register, a, b => Register.value a = Register.value b

/- The handle of no entry that has the value of another. -/
def detached : (kind : HandleKind) → kind.Handle → kind.Handle
  | .counter, handle =>
      ⟨default, Counter.value handle, .zero⟩
  | .set, handle =>
      ⟨default, SetHandle.items handle, [], []⟩
  | .flag, handle => ⟨default, Flag.state handle⟩
  | .register, handle => ⟨default, Register.value handle⟩

variable (kind : HandleKind) (handle other : kind.Handle)

/- A detached handle has the value it was made with. -/
theorem sameValue_detached :
    kind.SameValue (kind.detached handle) handle := by
  cases kind <;> rfl

/- A detached handle is of no entry. -/
theorem binding_detached :
    kind.binding (kind.detached handle) = default := by
  cases kind <;> rfl

/- A detached handle has nothing unsent. -/
theorem hasNothingPending_detached :
    kind.HasNothingPending (kind.detached handle) := by
  cases kind with
  | counter => rfl
  | set => exact ⟨rfl, rfl⟩
  | flag => trivial
  | register => trivial

/- Handles are alike without their entries if values are. -/
theorem detached_eq_iff :
    kind.detached handle = kind.detached other ↔
      kind.SameValue handle other := by
  cases kind <;> simp [detached, SameValue]

/- The JSON of a handle depends on its value alone. -/
theorem ofHandle_eq_of_sameValue
    {kind : HandleKind}
    {handle other : kind.Handle}
    (hSame : kind.SameValue handle other) :
    Json.ofHandle kind handle = Json.ofHandle kind other := by
  cases kind with
  | counter => exact congrArg Json.ofInteger hSame
  | set =>
      exact congrArg
        (fun items => Json.list (items.map Json.ofBytes)) hSame
  | flag => exact congrArg Json.bool hSame
  | register => exact congrArg Json.ofBytes hSame

end HandleKind

------------------------------------------------------------
-- Reading Handles
------------------------------------------------------------

namespace Json

namespace Reader

/- What is made of a value is found where the value is. -/
theorem Recovers.map
    {α β : Type}
    {reader : Reader α}
    {json : Json}
    {value : α}
    (hRecovers : reader.Recovers json value)
    (make : α → β) :
    Recovers (fun depth json => (reader depth json).map make)
      json (make value) := by
  refine ⟨hRecovers.written, ?_⟩
  intro depth
  rw [hRecovers.read]
  split <;> rfl

/- Bytes that may be written as a text are found in a list. -/
theorem recovers_bytesOrText
    (value : Bytes) :
    bytesOrText.Recovers (ofBytes value) value :=
  ⟨(recovers_bytes value).written, (recovers_bytes value).read⟩

/- The value of a handle is found, without its entry. -/
theorem recovers_handle
    (kind : HandleKind)
    (value : kind.Handle) :
    (handle kind).Recovers (ofHandle kind value)
      (kind.detached value) := by
  cases kind with
  | counter =>
      exact (recovers_integer (Counter.value value)).map _
  | set =>
      have hItems :=
        recovers_list fun item
            (_ : item ∈ SetHandle.items value) =>
          recovers_bytesOrText item
      exact hItems.map _
  | flag => exact (recovers_bool (Flag.state value)).map _
  | register =>
      exact (recovers_bytesOrText (Register.value value)).map _

end Reader

/- The JSON of a handle is never too deep to be read. -/
theorem depth_ofHandle_le
    (kind : HandleKind)
    (value : kind.Handle) :
    (ofHandle kind value).depth ≤ 2 := by
  cases kind with
  | counter => exact Nat.zero_le 2
  | set => exact depth_ofMembers_le (SetHandle.items value)
  | flag => exact Nat.zero_le 2
  | register =>
      have hBytes := depth_ofBytes_le (Register.value value)
      exact Nat.le_succ_of_le hBytes

end Json

------------------------------------------------------------
-- Texts of Handles
------------------------------------------------------------

namespace HandleKind

/- The text of a handle is read as its value without entry. -/
theorem ofJson_toJson
    (kind : HandleKind)
    (handle : kind.Handle) :
    kind.ofJson (kind.toJson handle) =
      .ok (kind.detached handle) := by
  have hDepth : (Json.ofHandle kind handle).depth ≤ 127 :=
    Nat.le_trans (Json.depth_ofHandle_le kind handle)
      (by decide)
  have hRead :=
    (Json.Reader.recovers_handle kind handle).read?_render
  rw [if_pos hDepth] at hRead
  rw [ofJson, toJson, hRead]

/-
  The text of a handle is read as a handle of the same kind
  with the same value, which is of no entry and has nothing
  unsent.  Two handles of a kind have the same text if and
  only if their values are the same.
-/
theorem json_keeps_value
    (kind : HandleKind)
    (handle other : kind.Handle) :
    (∃ restored,
      kind.ofJson (kind.toJson handle) = .ok restored ∧
      kind.SameValue restored handle ∧
      kind.binding restored = default ∧
      (kind.binding restored).isBound = false ∧
      kind.HasNothingPending restored) ∧
    (kind.toJson handle = kind.toJson other ↔
      kind.SameValue handle other) := by
  constructor
  · have hBinding := kind.binding_detached handle
    refine ⟨_, kind.ofJson_toJson handle,
      kind.sameValue_detached handle, hBinding, ?_,
      kind.hasNothingPending_detached handle⟩
    rw [hBinding]
    decide
  · constructor
    · intro hText
      have hRead := congrArg kind.ofJson hText
      rw [ofJson_toJson, ofJson_toJson] at hRead
      exact (kind.detached_eq_iff handle other).mp
        (Except.ok.inj hRead)
    · intro hSame
      rw [toJson, toJson, ofHandle_eq_of_sameValue hSame]

/- What is bound and unsent does not show in a text. -/
example :
    let set : SetHandle :=
      ⟨⟨.root ⟨"b", "t", "k"⟩, "s", [7]⟩, [[97], [], [97]],
        [[97]], [[98]]⟩
    HandleKind.set.toJson set = "[[97],[],[97]]" := by
  decide

end HandleKind

end CrdtDoc
