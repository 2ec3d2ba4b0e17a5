import CrdtDoc.Json.Parse

/-
  This file shows that the text of a JSON value spells that
  value.  The text is first cut into the tokens of the value,
  and these make up the value again.

  A word ends only at the character behind it, so a scanner
  is described by the tokens that it holds once a word that
  it may stand in has ended.

  Key definitions include:
    * `Json.IsWritten`
    * `Json.tokens`
    * `Json.Token.Scanner.Holds`
    * `Json.Token.Scanner.Reads`

  Main declarations:
    * `Json.Token.Scanner.reads_renderChars`
    * `Json.Parser.run_tokens`
    * `Json.parse?_render`
-/

namespace CrdtDoc

namespace Json

------------------------------------------------------------
-- Written Values
------------------------------------------------------------

/- A piece that is found again in its own text. -/
def Piece.IsWritten : Piece → Prop
  | .raw char => char ≠ '"' ∧ char ≠ '\\'
  | .unit code => code < 65536

/- Characters of a number that are found again as a word. -/
def IsWrittenNumber
    (chars : List Char) : Prop :=
  isNumber chars = true ∧
  ∀ char ∈ chars, Token.isWordChar char = true

mutual
/-
  At every depth, texts and numbers are found again in their
  own text.
-/
def IsWritten : Json → Prop
  | .number chars => IsWrittenNumber chars
  | .text pieces => ∀ piece ∈ pieces, piece.IsWritten
  | .list items => AreWritten items
  | .object members => HaveWritten members
  | _ => True

/- All items of a list are found again. -/
def AreWritten : List Json → Prop
  | [] => True
  | item :: rest => item.IsWritten ∧ AreWritten rest

/- All members of an object are found again. -/
def HaveWritten : List (List Piece × Json) → Prop
  | [] => True
  | (key, value) :: rest =>
      (∀ piece ∈ key, piece.IsWritten) ∧
      value.IsWritten ∧
      HaveWritten rest
end

/- What holds of all items holds of each of them. -/
theorem areWritten_iff
    {items : List Json} :
    AreWritten items ↔ ∀ item ∈ items, item.IsWritten := by
  induction items with
  | nil =>
      rw [AreWritten]
      exact iff_of_true trivial (List.forall_mem_nil _)
  | cons item rest ih =>
      rw [AreWritten, ih, List.forall_mem_cons]

/- What holds of all members holds of each of them. -/
theorem haveWritten_iff
    {members : List (List Piece × Json)} :
    HaveWritten members ↔
      ∀ member ∈ members,
        (∀ piece ∈ member.1, piece.IsWritten) ∧
        member.2.IsWritten := by
  induction members with
  | nil =>
      rw [HaveWritten]
      exact iff_of_true trivial (List.forall_mem_nil _)
  | cons member rest ih =>
      rw [HaveWritten, ih, List.forall_mem_cons, and_assoc]

------------------------------------------------------------
-- Tokens of Values
------------------------------------------------------------

mutual
/- The tokens that make up a value. -/
def tokens : Json → List Token
  | .null => [.null]
  | .bool value => [.bool value]
  | .number chars => [.number chars]
  | .text pieces => [.text pieces]
  | .list [] => [.openList, .closeList]
  | .list (first :: rest) =>
      .openList :: tokens first ++ itemTokens rest ++
        [.closeList]
  | .object [] => [.openObject, .closeObject]
  | .object ((key, value) :: rest) =>
      .openObject :: .text key :: .colon :: tokens value ++
        memberTokens rest ++ [.closeObject]

/- The tokens of items after the first one. -/
def itemTokens : List Json → List Token
  | [] => []
  | item :: rest => .comma :: tokens item ++ itemTokens rest

/- The tokens of members after the first one. -/
def memberTokens : List (List Piece × Json) → List Token
  | [] => []
  | (key, value) :: rest =>
      .comma :: .text key :: .colon :: tokens value ++
        memberTokens rest
end

------------------------------------------------------------
-- Words
------------------------------------------------------------

namespace Token

/- A number is no other word. -/
theorem ofWord?_of_isNumber
    {word : List Char}
    (hNumber : isNumber word = true) :
    ofWord? word = some (.number word) := by
  have hNull : word ≠ "null".toList := by
    rintro rfl
    revert hNumber
    decide
  have hTrue : word ≠ "true".toList := by
    rintro rfl
    revert hNumber
    decide
  have hFalse : word ≠ "false".toList := by
    rintro rfl
    revert hNumber
    decide
  rw [ofWord?, if_neg hNull, if_neg hTrue, if_neg hFalse,
    if_pos hNumber]

/- No mark stands in a word or ends one as a blank. -/
theorem start_of_ofMark?
    {char : Char}
    {token : Token}
    (hMark : ofMark? char = some token) :
    isWordChar char = false ∧
    ∀ tokens,
      Scanner.start tokens char =
        some ⟨token :: tokens, .between⟩ := by
  unfold ofMark? at hMark
  split at hMark
  all_goals cases hMark
  all_goals exact ⟨by decide, fun _ => rfl⟩

/- A character of a word begins one. -/
theorem start_of_isWordChar
    {char : Char}
    (hWord : isWordChar char = true)
    (tokens : List Token) :
    Scanner.start tokens char =
      some ⟨tokens, .word [char]⟩ := by
  have hBlank : ¬isBlank char = true := by
    intro hBlank
    simp only [isBlank, Bool.or_eq_true, beq_iff_eq] at hBlank
    rcases hBlank with ((hEq | hEq) | hEq) | hEq <;>
      · subst hEq
        revert hWord
        decide
  have hQuote : char ≠ '"' := by
    rintro rfl
    revert hWord
    decide
  rw [Scanner.start, if_neg hBlank, if_neg hQuote,
    if_pos hWord]

------------------------------------------------------------
-- Scanners
------------------------------------------------------------

namespace Scanner

/- A scanner after several characters. -/
def run
    (scanner : Scanner)
    (chars : List Char) : Option Scanner :=
  chars.foldlM step scanner

/- Characters are read one after the other. -/
theorem run_append
    (scanner : Scanner)
    (left right : List Char) :
    run scanner (left ++ right) =
      (run scanner left).bind (run · right) :=
  List.foldlM_append

/-
  The tokens a scanner holds, last one first, once the word
  has ended that it may stand in.
-/
inductive Holds : Scanner → List Token → Prop where
  | between
      (tokens : List Token) :
      Holds ⟨tokens, .between⟩ tokens
  | word
      {tokens : List Token}
      {chars : List Char}
      {token : Token}
      (hWord : ofWord? chars.reverse = some token) :
      Holds ⟨tokens, .word chars⟩ (token :: tokens)

/- After some characters a scanner holds some tokens. -/
def Reads
    (scanner : Scanner)
    (chars : List Char)
    (tokens : List Token) : Prop :=
  ∃ next, run scanner chars = some next ∧ next.Holds tokens

variable {scanner : Scanner} {tokens : List Token}

/- A scanner holds its tokens before it reads any more. -/
theorem Holds.reads
    (hHolds : scanner.Holds tokens) :
    scanner.Reads [] tokens :=
  ⟨scanner, rfl, hHolds⟩

/- Characters are read from wherever others have led. -/
theorem Reads.append
    {left right : List Char}
    {after : List Token}
    (hLeft : scanner.Reads left tokens)
    (hRight :
      ∀ next : Scanner,
        next.Holds tokens → next.Reads right after) :
    scanner.Reads (left ++ right) after := by
  rcases hLeft with ⟨middle, hRun, hHolds⟩
  rcases hRight middle hHolds with ⟨last, hLast, hAfter⟩
  refine ⟨last, ?_, hAfter⟩
  rw [run_append, hRun]
  exact hLast

/- A mark ends a word and is a token of its own. -/
theorem Holds.step_mark
    (hHolds : scanner.Holds tokens)
    {char : Char}
    {token : Token}
    (hMark : ofMark? char = some token) :
    step scanner char = some ⟨token :: tokens, .between⟩ := by
  rcases start_of_ofMark? hMark with ⟨hWordChar, hStart⟩
  cases hHolds with
  | between _ => exact hStart tokens
  | word hWord =>
      simp only [step, hWordChar, endWord, hWord]
      exact hStart _

/- What follows a mark is read from between two tokens. -/
theorem Holds.reads_mark
    (hHolds : scanner.Holds tokens)
    {char : Char}
    {token : Token}
    (hMark : ofMark? char = some token)
    {rest : List Char}
    {after : List Token}
    (hRest :
      Reads ⟨token :: tokens, .between⟩ rest after) :
    scanner.Reads (char :: rest) after := by
  rcases hRest with ⟨last, hLast, hAfter⟩
  refine ⟨last, ?_, hAfter⟩
  rw [run, List.foldlM_cons, hHolds.step_mark hMark]
  exact hLast

/- At the end, the tokens stand in their order. -/
theorem Holds.finish_eq
    (hHolds : scanner.Holds tokens) :
    scanner.finish = some tokens.reverse := by
  cases hHolds with
  | between _ => rfl
  | word hWord =>
      simp only [finish, endWord, hWord]
      rfl

/- Characters of a word are kept until it has ended. -/
theorem run_word
    (tokens : List Token)
    (before : List Char)
    {chars : List Char}
    (hChars : ∀ char ∈ chars, isWordChar char = true) :
    run ⟨tokens, .word before⟩ chars =
      some ⟨tokens, .word (chars.reverse ++ before)⟩ := by
  induction chars generalizing before with
  | nil => rfl
  | cons char rest ih =>
      rcases List.forall_mem_cons.mp hChars
        with ⟨hFirst, hRest⟩
      have hStep :
          step ⟨tokens, .word before⟩ char =
            some ⟨tokens, .word (char :: before)⟩ := by
        rw [step, if_pos hFirst]
      rw [run, List.foldlM_cons, hStep]
      refine (ih (char :: before) hRest).trans ?_
      rw [List.reverse_cons, List.append_assoc]
      rfl

/- A word between two tokens is read as its token. -/
theorem reads_word
    (tokens : List Token)
    {chars : List Char}
    (hChars : ∀ char ∈ chars, isWordChar char = true)
    {token : Token}
    (hWord : ofWord? chars = some token) :
    Reads ⟨tokens, .between⟩ chars (token :: tokens) := by
  cases chars with
  | nil => cases hWord
  | cons char rest =>
      rcases List.forall_mem_cons.mp hChars
        with ⟨hFirst, hRest⟩
      refine ⟨⟨tokens, .word (char :: rest).reverse⟩, ?_, ?_⟩
      · have hStep :
            step ⟨tokens, .between⟩ char =
              some ⟨tokens, .word [char]⟩ :=
          start_of_isWordChar hFirst tokens
        rw [run, List.foldlM_cons, hStep, List.reverse_cons]
        exact run_word tokens [char] hRest
      · refine .word ?_
        rw [List.reverse_reverse]
        exact hWord

------------------------------------------------------------
-- Texts
------------------------------------------------------------

/- The digits of a code unit spell it. -/
theorem run_hexDigits
    (tokens : List Token)
    (pieces : List Piece)
    {code : Nat}
    (hCode : code < 65536) :
    run ⟨tokens, .code pieces 3 0⟩ (hexDigits code) =
      some ⟨tokens, .text (.unit code :: pieces)⟩ := by
  have hDigit (n : Nat) :
      Text.hexValue? (Text.hexDigit (n % 16)) =
        some (n % 16) :=
    Text.hexValue?_hexDigit (Nat.mod_lt n (by decide))
  have hSum :
      (((0 * 16 + code / 4096 % 16) * 16 +
        code / 256 % 16) * 16 + code / 16 % 16) * 16 +
          code % 16 = code := by
    omega
  simp only [run, hexDigits, List.foldlM_cons,
    List.foldlM_nil, step, hDigit, Option.map_some,
    Option.bind_eq_bind, Option.bind_some, hSum]
  rfl

/- A code unit is found again behind its backslash. -/
theorem run_escape
    (tokens : List Token)
    (pieces : List Piece)
    {code : Nat}
    (hCode : code < 65536) :
    run ⟨tokens, .escape pieces⟩ (escape code) =
      some ⟨tokens, .text (.unit code :: pieces)⟩ := by
  unfold escape
  split
  case h_8 => exact run_hexDigits tokens pieces hCode
  all_goals rfl

/- A piece is found again within a text. -/
theorem run_piece
    (tokens : List Token)
    (pieces : List Piece)
    {piece : Piece}
    (hPiece : piece.IsWritten) :
    run ⟨tokens, .text pieces⟩ piece.render =
      some ⟨tokens, .text (piece :: pieces)⟩ := by
  cases piece with
  | raw char =>
      have hStep :
          step ⟨tokens, .text pieces⟩ char =
            some ⟨tokens, .text (.raw char :: pieces)⟩ := by
        rw [step, if_neg hPiece.1, if_neg hPiece.2]
      rw [Piece.render, run, List.foldlM_cons, hStep]
      rfl
  | unit code => exact run_escape tokens pieces hPiece

/- Pieces are found again within a text. -/
theorem run_pieces
    (tokens : List Token)
    (before : List Piece)
    {pieces : List Piece}
    (hPieces : ∀ piece ∈ pieces, piece.IsWritten) :
    run ⟨tokens, .text before⟩
        (pieces.flatMap Piece.render) =
      some ⟨tokens, .text (pieces.reverse ++ before)⟩ := by
  induction pieces generalizing before with
  | nil => rfl
  | cons piece rest ih =>
      rcases List.forall_mem_cons.mp hPieces
        with ⟨hFirst, hRest⟩
      rw [List.flatMap_cons, run_append,
        run_piece tokens before hFirst, Option.bind_some,
        ih (piece :: before) hRest, List.reverse_cons,
        List.append_assoc]
      rfl

/- A text between two tokens is read as its token. -/
theorem run_renderText
    (tokens : List Token)
    {pieces : List Piece}
    (hPieces : ∀ piece ∈ pieces, piece.IsWritten) :
    run ⟨tokens, .between⟩ (renderText pieces) =
      some ⟨.text pieces :: tokens, .between⟩ := by
  have hClose :
      run ⟨tokens, .text pieces.reverse⟩ ['"'] =
        some ⟨.text pieces.reverse.reverse :: tokens,
          .between⟩ := by
    rfl
  have hBody := run_pieces tokens [] hPieces
  rw [List.append_nil] at hBody
  rw [renderText]
  change run ⟨tokens, .text []⟩ (_ ++ _) = _
  rw [run_append, hBody, Option.bind_some, hClose,
    List.reverse_reverse]

/- What follows a text is read from between two tokens. -/
theorem reads_renderText
    {pieces : List Piece}
    (hPieces : ∀ piece ∈ pieces, piece.IsWritten)
    {rest : List Char}
    {after : List Token}
    (hRest :
      Reads ⟨.text pieces :: tokens, .between⟩ rest after) :
    Reads ⟨tokens, .between⟩ (renderText pieces ++ rest)
      after := by
  rcases hRest with ⟨last, hLast, hAfter⟩
  refine ⟨last, ?_, hAfter⟩
  rw [run_append, run_renderText tokens hPieces]
  exact hLast

------------------------------------------------------------
-- Values
------------------------------------------------------------

mutual
/- The text of a value is cut into its tokens. -/
theorem reads_renderChars :
    (json : Json) →
      json.IsWritten →
      ∀ before,
        Reads ⟨before, .between⟩ (renderChars json)
          (json.tokens.reverse ++ before)
  | .null, _, before =>
      reads_word before (List.all_eq_true.mp rfl) rfl
  | .bool true, _, before =>
      reads_word before (List.all_eq_true.mp rfl) rfl
  | .bool false, _, before =>
      reads_word before (List.all_eq_true.mp rfl) rfl
  | .number chars, hWritten, before => by
      rw [IsWritten] at hWritten
      exact reads_word before hWritten.2
        (ofWord?_of_isNumber hWritten.1)
  | .text pieces, hWritten, before => by
      rw [IsWritten] at hWritten
      exact ⟨_, run_renderText before hWritten,
        .between _⟩
  | .list [], _, before => ⟨_, rfl, .between _⟩
  | .list (first :: rest), hWritten, before => by
      rw [IsWritten, AreWritten] at hWritten
      rw [renderChars, Json.tokens, List.cons_append,
        List.cons_append]
      refine (Holds.between before).reads_mark rfl ?_
      refine ((reads_renderChars first hWritten.1 _).append
        fun next hNext =>
          reads_renderItems rest hWritten.2 hNext).append ?_
      intro next hNext
      refine hNext.reads_mark rfl ?_
      simpa using (Holds.between _).reads
  | .object [], _, before => ⟨_, rfl, .between _⟩
  | .object ((key, value) :: rest), hWritten, before => by
      rw [IsWritten, HaveWritten] at hWritten
      rcases hWritten with ⟨hKey, hValue, hRest⟩
      rw [renderChars, Json.tokens]
      simp only [List.cons_append, List.append_assoc]
      refine (Holds.between before).reads_mark rfl ?_
      refine reads_renderText hKey ?_
      refine (Holds.between _).reads_mark rfl ?_
      refine (reads_renderChars value hValue _).append ?_
      intro next hNext
      refine (reads_renderMembers rest hRest hNext).append ?_
      intro last hLast
      refine hLast.reads_mark rfl ?_
      simpa using (Holds.between _).reads

/- The text of further items is cut into their tokens. -/
theorem reads_renderItems :
    (items : List Json) →
      AreWritten items →
      ∀ {scanner : Scanner} {before},
        scanner.Holds before →
        scanner.Reads (renderItems items)
          ((itemTokens items).reverse ++ before)
  | [], _, _, _, hHolds => hHolds.reads
  | item :: rest, hWritten, _, before, hHolds => by
      rw [AreWritten] at hWritten
      rw [renderItems, itemTokens, List.cons_append]
      refine hHolds.reads_mark rfl ?_
      refine (reads_renderChars item hWritten.1 _).append ?_
      intro next hNext
      simpa using reads_renderItems rest hWritten.2 hNext

/- The text of further members is cut into their tokens. -/
theorem reads_renderMembers :
    (members : List (List Piece × Json)) →
      HaveWritten members →
      ∀ {scanner : Scanner} {before},
        scanner.Holds before →
        scanner.Reads (renderMembers members)
          ((memberTokens members).reverse ++ before)
  | [], _, _, _, hHolds => hHolds.reads
  | (key, value) :: rest, hWritten, _, before, hHolds => by
      rw [HaveWritten] at hWritten
      rcases hWritten with ⟨hKey, hValue, hRest⟩
      rw [renderMembers, memberTokens]
      simp only [List.cons_append, List.append_assoc]
      refine hHolds.reads_mark rfl ?_
      refine reads_renderText hKey ?_
      refine (Holds.between _).reads_mark rfl ?_
      refine (reads_renderChars value hValue _).append ?_
      intro next hNext
      simpa using reads_renderMembers rest hRest hNext
end

end Scanner

/- The text of a value has the tokens of the value. -/
theorem scan_renderChars
    {json : Json}
    (hWritten : json.IsWritten) :
    scan (renderChars json) = some json.tokens := by
  rcases Scanner.reads_renderChars json hWritten []
    with ⟨next, hRun, hHolds⟩
  rw [scan]
  change (Scanner.run _ _).bind _ = _
  rw [hRun, Option.bind_some, hHolds.finish_eq,
    List.append_nil, List.reverse_reverse]

end Token

------------------------------------------------------------
-- Parsers
------------------------------------------------------------

namespace Parser

/- A parser after several tokens. -/
def run
    (parser : Parser)
    (tokens : List Token) : Option Parser :=
  tokens.foldlM step parser

/- Tokens are taken one after the other. -/
theorem run_append
    (parser : Parser)
    (left right : List Token) :
    run parser (left ++ right) =
      (run parser left).bind (run · right) :=
  List.foldlM_append

/- One token is taken before all others. -/
theorem run_cons
    (parser : Parser)
    (token : Token)
    (rest : List Token) :
    run parser (token :: rest) =
      (step parser token).bind (run · rest) :=
  List.foldlM_cons

/- A first item is taken like any other. -/
theorem run_firstItem
    (frames : List Frame)
    (json : Json)
    (rest : List Token) :
    run ⟨frames, .firstItem⟩ (json.tokens ++ rest) =
      run ⟨.list [] :: frames, .value⟩
        (json.tokens ++ rest) := by
  have hFirst :
      ∃ token others,
        json.tokens = token :: others ∧
        token ≠ .closeList := by
    unfold tokens
    split <;> exact ⟨_, _, rfl, by rintro ⟨⟩⟩
  rcases hFirst with ⟨token, others, hTokens, hNot⟩
  rw [hTokens, List.cons_append, run_cons, run_cons]
  congr 1
  cases token <;> first | rfl | exact absurd rfl hNot

mutual
/- The tokens of a value make it up. -/
theorem run_tokens :
    (json : Json) →
      ∀ frames,
        run ⟨frames, .value⟩ json.tokens =
          some ⟨frames, .after json⟩
  | .null, _ => rfl
  | .bool _, _ => rfl
  | .number _, _ => rfl
  | .text _, _ => rfl
  | .list [], _ => rfl
  | .list (first :: rest), frames => by
      rw [tokens, List.cons_append, List.cons_append, run_cons]
      change run ⟨frames, .firstItem⟩ _ = _
      rw [List.append_assoc, run_firstItem, run_append,
        run_tokens first, Option.bind_some]
      exact run_itemTokens rest frames [] first
  | .object [], _ => rfl
  | .object ((key, value) :: rest), frames => by
      rw [tokens]
      simp only [List.cons_append, List.append_assoc]
      change run ⟨.object [] key :: frames, .value⟩ _ = _
      rw [run_append, run_tokens value, Option.bind_some]
      exact run_memberTokens rest frames [] key value

/- Further items and the end of a list make it up. -/
theorem run_itemTokens :
    (items : List Json) →
      ∀ frames before last,
        run ⟨.list before :: frames, .after last⟩
            (itemTokens items ++ [.closeList]) =
          some ⟨frames,
            .after (.list (before.reverse ++ last :: items))⟩
  | [], frames, before, last => by
      rw [← List.reverse_cons]
      rfl
  | item :: rest, frames, before, last => by
      rw [itemTokens]
      simp only [List.cons_append, List.append_assoc]
      change run ⟨.list (last :: before) :: frames, .value⟩ _ =
        _
      rw [run_append, run_tokens item, Option.bind_some,
        run_itemTokens rest frames (last :: before) item,
        List.reverse_cons, List.append_assoc]
      rfl

/- Further members and the end of an object make it up. -/
theorem run_memberTokens :
    (members : List (List Piece × Json)) →
      ∀ frames before key last,
        run ⟨.object before key :: frames, .after last⟩
            (memberTokens members ++ [.closeObject]) =
          some ⟨frames,
            .after (.object
              (before.reverse ++ (key, last) :: members))⟩
  | [], frames, before, key, last => by
      rw [← List.reverse_cons]
      rfl
  | (name, value) :: rest, frames, before, key, last => by
      rw [memberTokens]
      simp only [List.cons_append, List.append_assoc]
      change
        run ⟨.object ((key, last) :: before) name :: frames,
          .value⟩ _ = _
      rw [run_append, run_tokens value, Option.bind_some,
        run_memberTokens rest frames ((key, last) :: before)
          name value,
        List.reverse_cons, List.append_assoc]
      rfl
end

end Parser

/- The tokens of a value make up that value. -/
theorem ofTokens?_tokens
    (json : Json) :
    ofTokens? json.tokens = some json := by
  rw [ofTokens?]
  change (Parser.run _ _).bind _ = _
  rw [Parser.start, Parser.run_tokens json []]
  rfl

/- The text of a value spells that value. -/
theorem parse?_render
    {json : Json}
    (hWritten : json.IsWritten) :
    parse? json.render = some json := by
  rw [parse?, render, String.toList_ofList,
    Token.scan_renderChars hWritten]
  exact ofTokens?_tokens json

end Json

end CrdtDoc
