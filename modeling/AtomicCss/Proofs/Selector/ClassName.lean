import AtomicCss.Json.Lexeme
import AtomicCss.Proofs.Text.Substitution
import AtomicCss.Proofs.Token.Reading
import AtomicCss.Selector.Build

/-
  This file proves that a class name denotes the text that
  was escaped, so that tokens with payloads never share a
  class name.

  A name is read in pieces: characters as they are, marked
  characters, and codes. A code takes all digits behind its
  backslash, so what follows it must not be one. A space ends
  the code that is written for a first digit.

  Key definitions include:
    * `Selector.Piece`
    * `Selector.Piece.front?`
    * `Selector.Piece.Valid`
    * `Selector.pieces`
    * `Selector.unescape`
    * `Selector.writtenFor`
    * `Selector.StandsEscaped`

  The main statements are:
    * `Selector.pieces_texts`
    * `Selector.unescape_escape`
    * `Selector.escape_injective`
    * `Selector.standsEscaped_of_not_isNameChar`
    * `Selector.escaped_texts_are_read_back`
-/

namespace AtomicCss.Selector

------------------------------------------------------------
-- Pieces of a name
------------------------------------------------------------

/-
  A piece of a name: a character as it is, one behind a
  backslash, or the code of one in hexadecimal digits, which
  a space may end.
-/
inductive Piece where
  | plain (c : Char)
  | marked (c : Char)
  | coded (digits : List Char) (spaced : Bool)
deriving DecidableEq

def isHexDigit
    (c : Char) : Bool :=
  (Json.hexValue? c).isSome

namespace Piece

/- The text of a piece. -/
def text : Piece → List Char
  | plain c => [c]
  | marked c => ['\\', c]
  | coded digits spaced =>
      '\\' :: (digits ++ if spaced then [' '] else [])

/- The number that hexadecimal digits denote. -/
def number
    (digits : List Char) : Nat :=
  digits.foldl
    (fun n c => n * 16 + (Json.hexValue? c).getD 0) 0

/- The character with a code, if there is one to write. -/
def ofCode
    (n : Nat) : Char :=
  if n ≠ 0 ∧ n.isValidChar then Char.ofNat n else '\uFFFD'

/- The character that a piece denotes. -/
def char : Piece → Char
  | plain c => c
  | marked c => c
  | coded digits _ => ofCode (number digits)

/- Whether a piece begins with a backslash. -/
def isEscape : Piece → Bool
  | plain _ => false
  | marked _ => true
  | coded _ _ => true

/-
  The piece that begins a text. A code has up to six digits.
  A backslash with nothing behind it is no piece.
-/
def front? : List Char → Option Piece
  | [] => none
  | c :: rest =>
      if c = '\\' then
        let digits := (rest.take 6).takeWhile isHexDigit
        if digits = [] then
          rest.head?.map marked
        else
          some
            (coded digits
              ((rest.drop digits.length).head? = some ' '))
      else
        some (plain c)

/- `front?` as the rule of a search. -/
def rule : Text.Rule Piece :=
  fun cs => (front? cs).map (fun p => (p, p.text.length))

/-
  The pieces that keep apart from whatever follows them. A
  code has to be ended by a space.
-/
def Valid : Piece → Prop
  | plain c => c ≠ '\\'
  | marked c => isHexDigit c = false
  | coded digits spaced =>
      digits ≠ [] ∧ digits.length ≤ 6 ∧
      (∀ c ∈ digits, isHexDigit c = true) ∧ spaced = true

theorem text_ne_nil
    (p : Piece) :
    p.text ≠ [] := by
  cases p <;> exact List.cons_ne_nil _ _

/- A digit run that a space ends is taken as a whole. -/
theorem takeWhile_digits
    {digits : List Char}
    (hLength : digits.length ≤ 6)
    (hDigits : ∀ c ∈ digits, isHexDigit c = true)
    (rest : List Char) :
    ((digits ++ ' ' :: rest).take 6).takeWhile isHexDigit =
      digits := by
  rw [List.take_append, List.take_of_length_le hLength,
    List.takeWhile_append_of_pos hDigits]
  have hSpace :
      ((' ' :: rest).take (6 - digits.length)).takeWhile isHexDigit =
        [] := by
    cases 6 - digits.length with
    | zero => rfl
    | succ n => rfl
  rw [hSpace, List.append_nil]

/- A valid piece is read whatever follows it. -/
theorem front?_text_append
    {p : Piece}
    (hValid : p.Valid)
    (rest : List Char) :
    front? (p.text ++ rest) = some p := by
  cases p with
  | plain c => exact if_neg hValid
  | marked c =>
      have hNone :
          ((c :: rest).take 6).takeWhile isHexDigit = [] := by
        rw [List.take_succ_cons]
        exact List.takeWhile_cons_of_neg (Bool.not_eq_true _ ▸ hValid)
      have hText :
          (marked c).text ++ rest = '\\' :: c :: rest :=
        rfl
      rw [hText, front?, if_pos rfl]
      simp only [hNone, if_true, List.head?_cons, Option.map_some]
  | coded digits spaced =>
      rcases hValid with ⟨hNe, hLength, hDigits, rfl⟩
      have hText :
          (coded digits true).text ++ rest =
            '\\' :: (digits ++ ' ' :: rest) := by
        simp [text]
      rw [hText, front?, if_pos rfl]
      simp only [takeWhile_digits hLength hDigits, hNe, if_false,
        List.drop_left, List.head?_cons, decide_true]

end Piece

------------------------------------------------------------
-- Reading names
------------------------------------------------------------

/- The pieces of a name. -/
def pieces
    (cs : List Char) : List Piece :=
  Text.collect Piece.rule 0 cs

/- The text that a name denotes. -/
def unescape
    (cs : List Char) : List Char :=
  (pieces cs).map Piece.char

/- The text of several pieces. -/
def texts
    (ps : List Piece) : List Char :=
  ps.flatMap Piece.text

theorem texts_cons
    (p : Piece)
    (ps : List Piece) :
    texts (p :: ps) = p.text ++ texts ps :=
  List.flatMap_cons

/- Valid pieces are read back one by one. -/
theorem pieces_texts
    {ps : List Piece}
    (hValid : ∀ p ∈ ps, p.Valid) :
    pieces (texts ps) = ps := by
  induction ps with
  | nil => rfl
  | cons p ps ih =>
      rcases List.forall_mem_cons.1 hValid with ⟨hFirst, hRest⟩
      have hMatch :
          Piece.rule (p.text ++ texts ps) =
            some (p, p.text.length) := by
        rw [Piece.rule, Piece.front?_text_append hFirst]
        rfl
      rw [texts_cons, pieces,
        Text.collect_of_match
          (List.append_ne_nil_of_left_ne_nil p.text_ne_nil _)
          (List.length_pos_iff.2 p.text_ne_nil) hMatch,
        List.drop_left]
      exact congrArg (p :: ·) (ih hRest)

/- A character in the text of some pieces stands in one of them. -/
theorem exists_piece
    {ps : List Piece}
    {front back : List Char}
    {c : Char}
    (hPlace : texts ps = front ++ c :: back) :
    ∃ before p after inner outer,
      ps = before ++ p :: after ∧
      p.text = inner ++ c :: outer ∧
      front = texts before ++ inner := by
  induction ps generalizing front with
  | nil => simp [texts] at hPlace
  | cons p ps ih =>
      rw [texts_cons] at hPlace
      have hLater :
          ∀ behind, front = p.text ++ behind →
            texts ps = behind ++ c :: back →
              ∃ before q after inner outer,
                p :: ps = before ++ q :: after ∧
                q.text = inner ++ c :: outer ∧
                front = texts before ++ inner := by
        rintro behind rfl hRest
        rcases ih hRest with
          ⟨before, q, after, inner, outer, rfl, hText, rfl⟩
        refine ⟨p :: before, q, after, inner, outer, rfl, hText, ?_⟩
        rw [texts_cons, List.append_assoc]
      rcases List.append_eq_append_iff.1 hPlace with
        ⟨behind, hFront, hRest⟩ | ⟨behind, hText, hRest⟩
      · exact hLater behind hFront hRest
      · cases behind with
        | nil =>
            rw [List.append_nil] at hText
            exact hLater [] (by rw [hText, List.append_nil]) hRest.symm
        | cons d outer =>
            rw [List.cons_append, List.cons.injEq] at hRest
            rcases hRest with ⟨rfl, _⟩
            exact ⟨[], p, ps, front, outer, rfl, hText, rfl⟩

------------------------------------------------------------
-- Writing names
------------------------------------------------------------

/- Digits of codes stand in names as they are. -/
theorem isNameChar_of_isHexDigit
    {c : Char}
    (hDigit : isHexDigit c = true) :
    isNameChar c = true := by
  have hAlphanum : c.isAlphanum = true := by
    unfold isHexDigit Json.hexValue? at hDigit
    split at hDigit
    · rename_i hDecimal
      exact Bool.or_eq_true_iff.2 (Or.inr hDecimal)
    · split at hDigit
      · rename_i hLower
        have hLetter : c.isLower = true :=
          Bool.and_eq_true_iff.2
            ⟨decide_eq_true hLower.1,
              decide_eq_true (Nat.le_trans hLower.2 (by decide))⟩
        have hAlpha : c.isAlpha = true :=
          Bool.or_eq_true_iff.2 (Or.inr hLetter)
        exact Bool.or_eq_true_iff.2 (Or.inl hAlpha)
      · split at hDigit
        · rename_i hUpper
          have hLetter : c.isUpper = true :=
            decide_eq_true
              ⟨hUpper.1, Nat.le_trans hUpper.2 (by decide)⟩
          have hAlpha : c.isAlpha = true :=
            Bool.or_eq_true_iff.2 (Or.inl hLetter)
          exact Bool.or_eq_true_iff.2 (Or.inl hAlpha)
        · cases hDigit
  rw [isNameChar, hAlphanum]
  rfl

theorem bounds_of_isDigit
    {c : Char}
    (hDigit : c.isDigit = true) :
    48 ≤ c.toNat ∧ c.toNat ≤ 57 := by
  simp only [Char.isDigit, Bool.and_eq_true, decide_eq_true_eq]
    at hDigit
  exact hDigit

/- What holds of the ten codes of digits holds of a digit. -/
theorem of_isDigit
    (p : Char → Prop)
    (hCodes : ∀ k < 10, p (Char.ofNat (48 + k)))
    {c : Char}
    (hDigit : c.isDigit = true) :
    p c := by
  rcases bounds_of_isDigit hDigit with ⟨hLow, hHigh⟩
  have hCode := hCodes (c.toNat - 48) (by omega)
  rw [Nat.add_sub_cancel' hLow, Char.ofNat_toNat] at hCode
  exact hCode

/- The code of a decimal digit ends with that digit. -/
theorem toDigits_of_isDigit
    {c : Char}
    (hDigit : c.isDigit = true) :
    Nat.toDigits 16 c.toNat = ['3', c] :=
  of_isDigit (fun d => Nat.toDigits 16 d.toNat = ['3', d])
    (by decide) hDigit

/- It denotes the digit. -/
theorem ofCode_number_of_isDigit
    {c : Char}
    (hDigit : c.isDigit = true) :
    Piece.ofCode (Piece.number ['3', c]) = c := by
  have hNumber : Piece.number ['3', c] = c.toNat := by
    have hThree : Json.hexValue? '3' = some 3 := by
      decide
    have hValue : Json.hexValue? c = some (c.toNat - 48) :=
      if_pos hDigit
    have hLow := (bounds_of_isDigit hDigit).1
    simp only [Piece.number, List.foldl_cons, List.foldl_nil, hThree,
      hValue, Option.getD_some]
    omega
  have hNe : c.toNat ≠ 0 := by
    have hLow := (bounds_of_isDigit hDigit).1
    omega
  rw [hNumber, Piece.ofCode, if_pos ⟨hNe, c.valid⟩,
    Char.ofNat_toNat]

/- The piece that is written for a character. -/
def written
    (c : Char) : Piece :=
  if isNameChar c then .plain c else .marked c

/- The piece that is written for a first character. -/
def writtenFirst
    (c : Char) : Piece :=
  if c.isDigit then
    .coded (Nat.toDigits 16 c.toNat) true
  else
    written c

/- The pieces that are written for a text. -/
def writtenFor : List Char → List Piece
  | [] => []
  | c :: rest => writtenFirst c :: rest.map written

theorem text_written
    (c : Char) :
    (written c).text = escapeChar c := by
  unfold written escapeChar
  split <;> rfl

theorem char_written
    (c : Char) :
    (written c).char = c := by
  unfold written
  split <;> rfl

theorem valid_written
    (c : Char) :
    (written c).Valid := by
  unfold written
  split
  · rename_i hName
    rintro rfl
    exact absurd hName (by decide)
  · rename_i hOther
    exact Bool.eq_false_iff.2 (mt isNameChar_of_isHexDigit hOther)

theorem text_writtenFirst
    (c : Char) :
    (writtenFirst c).text = escapeFirst c := by
  unfold writtenFirst escapeFirst
  split
  · rfl
  · exact text_written c

theorem char_writtenFirst
    (c : Char) :
    (writtenFirst c).char = c := by
  unfold writtenFirst
  split
  · rename_i hDigit
    rw [toDigits_of_isDigit hDigit]
    exact ofCode_number_of_isDigit hDigit
  · exact char_written c

theorem valid_writtenFirst
    (c : Char) :
    (writtenFirst c).Valid := by
  unfold writtenFirst
  split
  · rename_i hDigit
    have hHex : isHexDigit c = true := by
      rw [isHexDigit, Json.hexValue?, if_pos hDigit]
      rfl
    rw [toDigits_of_isDigit hDigit]
    refine ⟨List.cons_ne_nil _ _, ?_, ?_, rfl⟩
    · exact Nat.le_add_left 2 4
    · rintro d (_ | ⟨_, hd⟩)
      · rfl
      · rw [List.mem_singleton.1 hd]
        exact hHex
  · exact valid_written c

theorem texts_writtenFor
    (cs : List Char) :
    texts (writtenFor cs) = escape cs := by
  cases cs with
  | nil => rfl
  | cons c rest =>
      rw [writtenFor, texts_cons, text_writtenFirst, escape, texts,
        List.flatMap_map]
      exact congrArg (escapeFirst c ++ ·)
        (List.flatMap_congr (fun d _ => text_written d))

theorem valid_of_mem_writtenFor
    {cs : List Char}
    {p : Piece}
    (hMem : p ∈ writtenFor cs) :
    p.Valid := by
  cases cs with
  | nil => exact absurd hMem List.not_mem_nil
  | cons c rest =>
      rcases List.mem_cons.1 hMem with rfl | hRest
      · exact valid_writtenFirst c
      · rcases List.mem_map.1 hRest with ⟨d, _, rfl⟩
        exact valid_written d

/- What is written is read piece by piece. -/
theorem pieces_escape
    (cs : List Char) :
    pieces (escape cs) = writtenFor cs := by
  rw [← texts_writtenFor,
    pieces_texts (fun _ hMem => valid_of_mem_writtenFor hMem)]

/- Reading a name undoes escaping it. -/
theorem unescape_escape
    (cs : List Char) :
    unescape (escape cs) = cs := by
  rw [unescape, pieces_escape]
  cases cs with
  | nil => rfl
  | cons c rest =>
      rw [writtenFor, List.map_cons, char_writtenFirst,
        List.map_map]
      refine congrArg (c :: ·) ?_
      conv_rhs => rw [← List.map_id rest]
      exact List.map_congr_left (fun d _ => char_written d)

theorem escape_injective
    {xs ys : List Char}
    (hSame : escape xs = escape ys) :
    xs = ys := by
  rw [← unescape_escape xs, hSame, unescape_escape]

------------------------------------------------------------
-- Characters with a meaning of their own
------------------------------------------------------------

/-
  How a character stands behind some text in a name of given
  pieces, if it has no place of its own there: it begins an
  escape, or is what a backslash marks, or ends the code that
  the name begins with.
-/
def StandsEscaped
    (ps : List Piece)
    (front : List Char)
    (c : Char) : Prop :=
  ∃ before p after,
    ps = before ++ p :: after ∧
    ((c = '\\' ∧ p.isEscape = true ∧ front = texts before) ∨
      (p = .marked c ∧ front = texts before ++ ['\\']) ∨
      (c = ' ' ∧ before = [] ∧
        ∃ digits,
          p = .coded digits true ∧ front = '\\' :: digits))

/- A character that is not in front of the last one is that one. -/
theorem eq_of_concat_eq
    {xs front back : List Char}
    {c d : Char}
    (hNotMem : c ∉ xs)
    (hPlace : xs ++ [d] = front ++ c :: back) :
    c = d ∧ xs = front := by
  rcases List.append_eq_append_iff.1 hPlace with
    ⟨behind, rfl, hRest⟩ | ⟨behind, rfl, hRest⟩
  · rcases List.append_eq_singleton_iff.1 hRest.symm with
      ⟨rfl, hSame⟩ | ⟨_, hNil⟩
    · exact ⟨(List.cons.inj hSame).1, (List.append_nil xs).symm⟩
    · cases hNil
  · cases behind with
    | nil =>
        exact ⟨(List.cons.inj hRest).1, List.append_nil front⟩
    | cons e behind =>
        have hFirst : c = e := (List.cons.inj hRest).1
        refine absurd (List.mem_append_right front ?_) hNotMem
        rw [hFirst]
        exact List.mem_cons_self

/- Only the first piece that is written can be a code. -/
theorem written_or_first
    {cs : List Char}
    {before after : List Piece}
    {p : Piece}
    (hPieces : writtenFor cs = before ++ p :: after) :
    (∃ c, p = written c) ∨
    (before = [] ∧
      ∃ digits,
        p = .coded digits true ∧
        ∀ c ∈ digits, isHexDigit c = true) := by
  cases cs with
  | nil => simp [writtenFor] at hPieces
  | cons c rest =>
      rw [writtenFor] at hPieces
      cases before with
      | nil =>
          rw [List.nil_append, List.cons.injEq] at hPieces
          rcases hPieces with ⟨rfl, _⟩
          have hValid := valid_writtenFirst c
          unfold writtenFirst at hValid ⊢
          split
          · rename_i hDigit
            rw [if_pos hDigit] at hValid
            exact Or.inr ⟨rfl, _, rfl, hValid.2.2.1⟩
          · exact Or.inl ⟨c, rfl⟩
      | cons q before =>
          rw [List.cons_append, List.cons.injEq] at hPieces
          have hMem : p ∈ rest.map written := by
            rw [hPieces.2]
            exact List.mem_append_right _ List.mem_cons_self
          rcases List.mem_map.1 hMem with ⟨d, _, rfl⟩
          exact Or.inl ⟨d, rfl⟩

/-
  Of a piece with a single character, only the backslash and
  what it marks are characters that names do not hold.
-/
theorem of_text_written
    {c d : Char}
    {inner outer : List Char}
    (hText : (written d).text = inner ++ c :: outer)
    (hOther : isNameChar c = false) :
    (c = '\\' ∧ (written d).isEscape = true ∧ inner = []) ∨
    (written d = .marked c ∧ inner = ['\\']) := by
  unfold written at hText ⊢
  split at hText
  · rename_i hName
    rcases List.append_eq_singleton_iff.1 hText.symm with
      ⟨_, hSame⟩ | ⟨_, hNil⟩
    · cases hSame
      rw [hName] at hOther
      cases hOther
    · cases hNil
  · rename_i hMarked
    rw [if_neg hMarked]
    cases inner with
    | nil =>
        cases hText
        exact Or.inl ⟨rfl, rfl, rfl⟩
    | cons e inner =>
        rcases List.cons.inj hText with ⟨rfl, hRest⟩
        rcases List.append_eq_singleton_iff.1 hRest.symm with
          ⟨rfl, hSame⟩ | ⟨_, hNil⟩
        · cases hSame
          exact Or.inr ⟨rfl, rfl⟩
        · cases hNil

/- Of a code, these are the backslash and the space at its end. -/
theorem of_text_coded
    {digits : List Char}
    (hDigits : ∀ c ∈ digits, isHexDigit c = true)
    {c : Char}
    {inner outer : List Char}
    (hText :
      (Piece.coded digits true).text = inner ++ c :: outer)
    (hOther : isNameChar c = false) :
    (c = '\\' ∧ inner = []) ∨
    (c = ' ' ∧ inner = '\\' :: digits) := by
  cases inner with
  | nil =>
      cases hText
      exact Or.inl ⟨rfl, rfl⟩
  | cons e inner =>
      rcases List.cons.inj hText with ⟨rfl, hRest⟩
      have hNotDigit : c ∉ digits := by
        intro hMem
        have hName := isNameChar_of_isHexDigit (hDigits c hMem)
        rw [hName] at hOther
        cases hOther
      rcases eq_of_concat_eq hNotDigit hRest with ⟨rfl, rfl⟩
      exact Or.inr ⟨rfl, rfl⟩

/-
  In an escaped text the characters that names do not hold
  stand escaped, by the piece that such a character is in.
-/
theorem standsEscaped_of_not_isNameChar
    {cs front back : List Char}
    {c : Char}
    (hPlace : escape cs = front ++ c :: back)
    (hOther : isNameChar c = false) :
    StandsEscaped (pieces (escape cs)) front c := by
  rw [pieces_escape]
  rw [← texts_writtenFor] at hPlace
  rcases exists_piece hPlace with
    ⟨before, p, after, inner, outer, hPieces, hText, rfl⟩
  refine ⟨before, p, after, hPieces, ?_⟩
  rcases written_or_first hPieces with
    ⟨d, rfl⟩ | ⟨rfl, digits, rfl, hDigits⟩
  · rcases of_text_written hText hOther with
      ⟨hBackslash, hEscape, rfl⟩ | ⟨hMarked, rfl⟩
    · exact Or.inl ⟨hBackslash, hEscape, List.append_nil _⟩
    · exact Or.inr (Or.inl ⟨hMarked, rfl⟩)
  · rcases of_text_coded hDigits hText hOther with
      ⟨hBackslash, rfl⟩ | ⟨hSpace, rfl⟩
    · exact Or.inl ⟨hBackslash, rfl, List.append_nil _⟩
    · exact Or.inr (Or.inr ⟨hSpace, rfl, digits, rfl, rfl⟩)

------------------------------------------------------------
-- Class names of tokens
------------------------------------------------------------

/-
  Reading a name undoes escaping. In an escaped text an ASCII
  character other than letters, digits, `-` and `_` begins an
  escape, is what a backslash marks, or ends the code in
  front. So tokens with payloads have different class names
  if they are different.
-/
theorem escaped_texts_are_read_back
    (cascade : Cascade)
    (catalog : Catalog) :
    (∀ cs, unescape (escape cs) = cs) ∧
    (∀ cs front c back,
      escape cs = front ++ c :: back →
      c.toNat < 128 →
      c.isAlphanum = false →
      c ≠ '-' →
      c ≠ '_' →
        StandsEscaped (pieces (escape cs)) front c) ∧
    (∀ x y t v u w,
      Token.read? cascade catalog false x = some t →
      Token.read? cascade catalog false y = some v →
      t.isParametric = true →
      v.isParametric = true →
      u.selector = none →
      w.selector = none →
      t ≠ v →
        subjects t u ≠ subjects v w) := by
  refine ⟨unescape_escape, ?_, ?_⟩
  · intro cs front c back hPlace hAscii hAlphanum hHyphen hLine
    apply standsEscaped_of_not_isNameChar hPlace
    simp [isNameChar, hAlphanum, hHyphen, hLine]
    omega
  · intro x y t v u w hx hy ht hv hu hw hNe hSame
    apply hNe
    apply Token.eq_of_raw_eq hx hy
    simp only [subjects, hu, hw, ofClass, ht, hv, if_true,
      List.cons.injEq, and_true] at hSame
    have hNames :=
      String.ofList_injective (String.append_right_inj _ |>.1 hSame)
    exact String.toList_injective (escape_injective hNames)

theorem escaped_texts_are_read_back_of_widths :
    let cascade : Cascade :=
      ⟨[("2xl", 576), ("md", 768)], by decide, by decide⟩
    let catalog : Catalog :=
      { utilities := .ofList [("w", {})] }
    let x := "2xl-up:w=(1)"
    let y := "2xl-up:w=(1)!"
    unescape (escape x.toList) = x.toList ∧
    StandsEscaped (pieces (escape x.toList)) ['\\', '3', '2'] ' ' ∧
    ∃ t v,
      Token.read? cascade catalog false x = some t ∧
      Token.read? cascade catalog false y = some v ∧
      subjects t {} = [".\\32 xl-up\\:w\\=\\(1\\)"] ∧
      subjects t {} ≠ subjects v {} := by
  intro cascade catalog x y
  let t : Token :=
    ⟨x, "2xl-up", [], "w", some "(1)", false, false, true⟩
  let v : Token :=
    ⟨y, "2xl-up", [], "w", some "(1)", true, false, true⟩
  have hx : Token.read? cascade catalog false x = some t := by
    decide
  have hy : Token.read? cascade catalog false y = some v := by
    decide
  have h := escaped_texts_are_read_back cascade catalog
  refine ⟨h.1 x.toList, ?_, t, v, hx, hy, by decide, ?_⟩
  · exact h.2.1 x.toList _ ' ' (escape x.toList |>.drop 4) (by decide)
      (by decide) (by decide) (by decide) (by decide)
  · exact h.2.2 x y t v {} {} hx hy (by decide) (by decide) rfl rfl
      (by decide)

end AtomicCss.Selector
