import CrdtDoc.Element
import CrdtDoc.Proofs.IntegerText
import CrdtDoc.Proofs.Sequencing

/-
  This file shows that elements are read back from what
  stands for them: from the bytes of a register, and from
  the members of a set.

  Main declarations:
    * `Element.IsStorable`
    * `Element.listOf_bytes`
    * `Element.arrayOf?_bytes`
    * `Element.exists_toMember`
    * `Element.ofMember_eq_ok`
    * `Element.exists_mapM_ofMember`
-/

namespace CrdtDoc

namespace Element

------------------------------------------------------------
-- Registers
------------------------------------------------------------

/- Only integers of eight bits without a sign are bytes. -/
theorem shape_eq_byte_iff
    {element : Element} :
    element.shape = .byte ↔ element = .int .u8 := by
  cases element with
  | int type => cases type <;> simp [shape]
  | _ => simp [shape]

/- A list of bytes is read back from its bytes. -/
theorem listOf_bytes
    {element : Element}
    (hByte : element.shape = .byte)
    (items : List element.Value) :
    element.listOf (element.bytes items) = items := by
  have hElement := shape_eq_byte_iff.mp hByte
  subst hElement
  unfold listOf bytes
  rw [List.filterMap_filterMap]
  have hSame :
      (fun item : Element.Value (.int .u8) =>
        (toByte? (.int .u8) item).bind (ofByte? (.int .u8))) =
        some := by
    funext item
    exact congrArg some (Integer.ofByte_toByte item)
  rw [hSame, List.filterMap_some]

/- There are as many bytes as elements. -/
theorem length_bytes
    {element : Element}
    (hByte : element.shape = .byte)
    (items : List element.Value) :
    (element.bytes items).length = items.length := by
  have hElement := shape_eq_byte_iff.mp hByte
  subst hElement
  induction items with
  | nil => rfl
  | cons item rest ih =>
      exact congrArg Nat.succ ih

/- An array is read back from its bytes. -/
theorem arrayOf?_bytes
    {element : Element}
    {length : Nat}
    (hByte : length = 0 ∨ element.shape = .byte)
    (items : Sized element.Value length) :
    element.arrayOf? length (element.bytes items.val) =
      some items := by
  rcases items with ⟨items, hLength⟩
  rcases hByte with hZero | hByte
  · subst hZero
    have hNil := List.eq_nil_of_length_eq_zero hLength
    subst hNil
    rfl
  · have hElement := shape_eq_byte_iff.mp hByte
    subst hElement
    have hBytes := length_bytes hByte items
    unfold arrayOf?
    rw [dif_pos (hBytes.trans hLength)]
    refine congrArg some (Subtype.ext ?_)
    have hList := listOf_bytes hByte items
    unfold listOf at hList
    refine Eq.trans ?_ hList
    exact (congrFun List.filterMap_eq_map _).symm

/- An integer is found again in its text. -/
theorem integerOf_text
    {type : IntType}
    (field : String)
    (value : Integer type) :
    integerOf type field (Text.encode (Integer.text value)) =
      .ok value := by
  rw [integerOf, Integer.decode?_encode_text]

/- A text is found again in its bytes. -/
theorem textOf_encode
    (field : String)
    (value : String) :
    textOf field (Text.encode value) = .ok value := by
  rw [textOf, Text.decode?_eq_some_iff.mpr rfl]

/- An array is found again where it must fit. -/
theorem arrayOf_bytes
    {element : Element}
    {length : Nat}
    (hByte : length = 0 ∨ element.shape = .byte)
    (field : String)
    (items : Sized element.Value length) :
    element.arrayOf length field
        (element.bytes items.val) =
      .ok items := by
  rw [arrayOf, arrayOf?_bytes hByte]

------------------------------------------------------------
-- Members
------------------------------------------------------------

/- Have the elements of a type members that stand for them? -/
def IsStorable : Element → Prop
  | .int _ => True
  | .text => True
  | .bool => False
  | .float32 => False
  | .float64 => False
  | .char => False
  | .list element => element.shape = .byte
  | .array element _ => element.shape = .byte

/- Elements have members if their type is storable. -/
theorem exists_toMember
    {element : Element}
    (hStorable : element.IsStorable)
    (field : String)
    (value : element.Value) :
    ∃ member, element.toMember field value = .ok member := by
  cases element with
  | int type => cases type <;> exact ⟨_, rfl⟩
  | text => exact ⟨_, rfl⟩
  | list element => exact ⟨_, if_pos hStorable⟩
  | array element length => exact ⟨_, if_pos hStorable⟩
  | _ => exact hStorable.elim

/- An element is read back from its member. -/
theorem ofMember_eq_ok
    {element : Element}
    {field : String}
    {value : element.Value}
    {member : Bytes}
    (hMember : element.toMember field value = .ok member)
    (other : String) :
    element.ofMember other member = .ok value := by
  cases element with
  | int type =>
      cases type with
      | u8 =>
          cases hMember
          exact congrArg Except.ok (Integer.ofByte_toByte value)
      | _ =>
          cases hMember
          exact integerOf_text other value
  | text =>
      cases hMember
      exact textOf_encode other value
  | list element =>
      change element.nestedMember field value = _ at hMember
      unfold nestedMember at hMember
      split at hMember
      · rename_i hByte
        cases hMember
        exact (if_pos hByte).trans
          (congrArg Except.ok (listOf_bytes hByte value))
      · cases hMember
  | array element length =>
      change element.nestedMember field value.val = _
        at hMember
      unfold nestedMember at hMember
      split at hMember
      · rename_i hByte
        cases hMember
        exact (if_pos hByte).trans
          (arrayOf_bytes (Or.inr hByte) other value)
      · cases hMember
  | _ => cases hMember

/- Elements with the same member are the same. -/
theorem toMember_inj
    {element : Element}
    {field : String}
    {a b : element.Value}
    {member : Bytes}
    (hFirst : element.toMember field a = .ok member)
    (hSecond : element.toMember field b = .ok member) :
    a = b := by
  have hRead := ofMember_eq_ok hFirst field
  rw [ofMember_eq_ok hSecond field] at hRead
  exact (Except.ok.inj hRead).symm

/-
  Members that stand for elements are read, as elements
  that they stand for.
-/
theorem exists_mapM_ofMember
    {element : Element}
    {field : String}
    {members : List Bytes}
    (hMembers :
      ∀ member ∈ members, ∃ value,
        element.toMember field value = .ok member) :
    ∃ values,
      members.mapM (element.ofMember field) = .ok values ∧
      values.mapM (element.toMember field) = .ok members := by
  simp only [mapM_eq_ok_iff]
  induction members with
  | nil => exact ⟨[], .nil, .nil⟩
  | cons member rest ih =>
      rcases hMembers member List.mem_cons_self
        with ⟨value, hValue⟩
      obtain ⟨values, hRead, hWritten⟩ :=
        ih fun other hOther =>
          hMembers other (List.mem_cons_of_mem _ hOther)
      exact ⟨value :: values,
        .cons (ofMember_eq_ok hValue field) hRead,
        .cons hValue hWritten⟩

end Element

end CrdtDoc
