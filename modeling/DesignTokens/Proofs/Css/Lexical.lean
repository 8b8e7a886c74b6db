import Mathlib.Data.List.Infix
/-!
# Strings, escapes and comments

A style sheet read character by character, by the lexical rules for quoted strings, backslash
escapes and comments.  A grammar says independently which texts are complete: a reader that begins
outside of strings and comments is outside again at the end of just these
(`endsOutside_iff`).

The hexadecimal digits of an escape are read as characters of their own, which makes no difference
to where a string or a comment ends; line breaks behind them do not occur in values.
-/

set_option autoImplicit false

namespace DesignTokens.Css

/-! ## The reader -/

/-- The quotes around strings. -/
inductive Quote where
  | single
  | double
  deriving DecidableEq, Repr

/-- The character of a quote. -/
def Quote.char : Quote → Char
  | .single => '\''
  | .double => '"'

/-- Whether a character ends a line, and with it a string that is still open. -/
def isLineBreak (c : Char) : Bool :=
  c == '\n' || c == '\r' || c == '\x0c'

/-- Where a reader stands: outside, behind a backslash, behind a slash, in a string, behind a
backslash in a string, in a comment, or behind an asterisk in a comment. -/
inductive Lexing where
  | outside
  | escape
  | slash
  | quoted (quote : Quote)
  | quotedEscape (quote : Quote)
  | comment
  | commentStar
  deriving DecidableEq, Repr

namespace Lexing

/-- What a character begins outside of strings and comments. -/
def opened (c : Char) : Lexing :=
  if c = '"' then .quoted .double
  else if c = '\'' then .quoted .single
  else if c = '\\' then .escape
  else if c = '/' then .slash
  else .outside

/-- Where a reader stands behind one more character. -/
def next : Lexing → Char → Lexing
  | .outside, c => opened c
  | .slash, c => if c = '*' then .comment else opened c
  | .escape, _ => .outside
  | .quoted quote, c =>
    if c = quote.char ∨ isLineBreak c = true then .outside
    else if c = '\\' then .quotedEscape quote
    else .quoted quote
  | .quotedEscape quote, _ => .quoted quote
  | .comment, c => if c = '*' then .commentStar else .comment
  | .commentStar, c =>
    if c = '/' then .outside
    else if c = '*' then .commentStar
    else .comment

/-- Whether a reader is neither in a string or a comment nor behind a backslash. -/
def isOutside : Lexing → Bool
  | .outside | .slash => true
  | _ => false

/-- Where a reader that begins outside stands at the end of a text. -/
def after (cs : List Char) : Lexing :=
  cs.foldl next .outside

end Lexing

/-- A text that leaves its reader outside of any string and comment. -/
def EndsOutside (text : String) : Prop :=
  (Lexing.after text.toList).isOutside = true

instance (text : String) : Decidable (EndsOutside text) :=
  inferInstanceAs (Decidable (_ = true))

/-! ## The grammar -/

/-- What may stand between the quotes of a string: characters that neither end it nor escape
another one, and escaped characters. -/
inductive StringBody (quote : Quote) : List Char → Prop
  | nil : StringBody quote []
  | char {c : Char} {rest : List Char} (hquote : c ≠ quote.char) (hbreak : isLineBreak c = false)
      (hescape : c ≠ '\\') (hrest : StringBody quote rest) : StringBody quote (c :: rest)
  | escape {c : Char} {rest : List Char} (hrest : StringBody quote rest) :
      StringBody quote ('\\' :: c :: rest)

/-- A character that ends a string: its quote, or the end of the line. -/
def Ends (quote : Quote) (c : Char) : Prop :=
  c = quote.char ∨ isLineBreak c = true

/-- A text of complete parts: characters that begin nothing, escaped characters, strings up to
their ends, and comments up to the first end of a comment. -/
inductive Complete : List Char → Prop
  | nil : Complete []
  | char {c : Char} {rest : List Char} (hquote : ∀ quote : Quote, c ≠ quote.char)
      (hescape : c ≠ '\\') (hcomment : ¬ ['/', '*'] <+: c :: rest) (hrest : Complete rest) :
      Complete (c :: rest)
  | escape {c : Char} {rest : List Char} (hrest : Complete rest) : Complete ('\\' :: c :: rest)
  | string {quote : Quote} {close : Char} {body rest : List Char} (hbody : StringBody quote body)
      (hclose : Ends quote close) (hrest : Complete rest) :
      Complete (quote.char :: (body ++ close :: rest))
  | comment {body rest : List Char} (hbody : ¬ ['*', '/'] <:+: body) (hrest : Complete rest) :
      Complete ('/' :: '*' :: (body ++ '*' :: '/' :: rest))

/-- The rest of a string, and a complete text. -/
def ClosesString (quote : Quote) (cs : List Char) : Prop :=
  ∃ body close rest, StringBody quote body ∧ Ends quote close ∧ Complete rest ∧
    cs = body ++ close :: rest

/-- The rest of a comment, and a complete text. -/
def ClosesComment (cs : List Char) : Prop :=
  ∃ body rest, ¬ ['*', '/'] <:+: body ∧ Complete rest ∧ cs = body ++ '*' :: '/' :: rest

variable {quote : Quote} {c : Char} {cs : List Char}

theorem Quote.char_ne_backslash (quote : Quote) : quote.char ≠ '\\' := by
  cases quote <;> decide

theorem Quote.char_ne_slash (quote : Quote) : quote.char ≠ '/' := by
  cases quote <;> decide

theorem Quote.char_injective : Function.Injective Quote.char := by
  intro quote quote' h
  cases quote <;> cases quote' <;> first | rfl | exact absurd h (by decide)

theorem not_ends_backslash (quote : Quote) : ¬ Ends quote '\\' := by
  rintro (hquote | hbreak)
  · exact quote.char_ne_backslash hquote.symm
  · cases hbreak

/-! ## One part at a time -/

/-- How a complete text begins: with a character that begins nothing, an escaped character, a string
or a comment. -/
theorem Complete.cons_cases (h : Complete (c :: cs)) :
    ((∀ quote : Quote, c ≠ quote.char) ∧ c ≠ '\\' ∧ ¬ ['/', '*'] <+: c :: cs ∧ Complete cs) ∨
      (c = '\\' ∧ ∃ d rest, cs = d :: rest ∧ Complete rest) ∨
      (∃ quote : Quote, c = quote.char ∧ ClosesString quote cs) ∨
      (c = '/' ∧ ∃ rest, cs = '*' :: rest ∧ ClosesComment rest) := by
  cases h with
  | char hquote hescape hcomment hrest => exact .inl ⟨hquote, hescape, hcomment, hrest⟩
  | escape hrest => exact .inr (.inl ⟨rfl, _, _, rfl, hrest⟩)
  | string hbody hclose hrest =>
    exact .inr (.inr (.inl ⟨_, rfl, _, _, _, hbody, hclose, hrest, rfl⟩))
  | comment hbody hrest => exact .inr (.inr (.inr ⟨rfl, _, rfl, _, _, hbody, hrest, rfl⟩))

theorem complete_char (hquote : ∀ quote : Quote, c ≠ quote.char) (hescape : c ≠ '\\')
    (hcomment : ¬ ['/', '*'] <+: c :: cs) : Complete (c :: cs) ↔ Complete cs := by
  refine ⟨fun h => ?_, Complete.char hquote hescape hcomment⟩
  rcases h.cons_cases with ⟨-, -, -, hrest⟩ | ⟨rfl, -⟩ | ⟨quote, rfl, -⟩ | ⟨rfl, rest, rfl, -⟩
  · exact hrest
  · exact absurd rfl hescape
  · exact absurd rfl (hquote quote)
  · exact absurd (List.prefix_append ['/', '*'] rest) hcomment

/-- A backslash takes the next character with it. -/
theorem complete_backslash :
    Complete ('\\' :: cs) ↔ ∃ c rest, cs = c :: rest ∧ Complete rest := by
  constructor
  · intro h
    rcases h.cons_cases with ⟨-, hescape, -⟩ | ⟨-, hrest⟩ | ⟨quote, hquote, -⟩ | ⟨hslash, -⟩
    · exact absurd rfl hescape
    · exact hrest
    · exact absurd hquote.symm quote.char_ne_backslash
    · exact absurd hslash (by decide)
  · rintro ⟨c, rest, rfl, hrest⟩
    exact .escape hrest

theorem complete_escape : Complete ('\\' :: c :: cs) ↔ Complete cs := by
  rw [complete_backslash]
  constructor
  · rintro ⟨_, _, heq, hrest⟩
    cases heq
    exact hrest
  · exact fun hrest => ⟨c, cs, rfl, hrest⟩

theorem complete_quote : Complete (quote.char :: cs) ↔ ClosesString quote cs := by
  constructor
  · intro h
    rcases h.cons_cases with ⟨hquote, -⟩ | ⟨hescape, -⟩ | ⟨quote', hsame, hcloses⟩ | ⟨hslash, -⟩
    · exact absurd rfl (hquote quote)
    · exact absurd hescape quote.char_ne_backslash
    · exact Quote.char_injective hsame ▸ hcloses
    · exact absurd hslash quote.char_ne_slash
  · rintro ⟨body, close, rest, hbody, hclose, hrest, rfl⟩
    exact .string hbody hclose hrest

theorem complete_slash_star : Complete ('/' :: '*' :: cs) ↔ ClosesComment cs := by
  constructor
  · intro h
    rcases h.cons_cases with ⟨-, -, hcomment, -⟩ | ⟨hescape, -⟩ | ⟨quote, hquote, -⟩ |
      ⟨-, rest, hcs, hcloses⟩
    · exact absurd (List.prefix_append ['/', '*'] cs) hcomment
    · exact absurd hescape (by decide)
    · exact absurd hquote.symm quote.char_ne_slash
    · cases hcs
      exact hcloses
  · rintro ⟨body, rest, hbody, hrest, rfl⟩
    exact .comment hbody hrest

theorem closesString_ends (h : Ends quote c) : ClosesString quote (c :: cs) ↔ Complete cs := by
  constructor
  · rintro ⟨body, close, rest, hbody, _, hrest, hcs⟩
    cases hbody with
    | nil =>
      cases hcs
      exact hrest
    | char hquote hbreak _ _ =>
      cases hcs
      rcases h with rfl | h
      · exact absurd rfl hquote
      · simp [h] at hbreak
    | escape _ =>
      cases hcs
      exact absurd h (not_ends_backslash quote)
  · intro hrest
    exact ⟨[], c, cs, .nil, h, hrest, rfl⟩

theorem closesString_char (h : ¬ Ends quote c) (hescape : c ≠ '\\') :
    ClosesString quote (c :: cs) ↔ ClosesString quote cs := by
  constructor
  · rintro ⟨body, close, rest, hbody, hclose, hrest, hcs⟩
    cases hbody with
    | nil =>
      cases hcs
      exact absurd hclose h
    | char _ _ _ hbody =>
      cases hcs
      exact ⟨_, close, rest, hbody, hclose, hrest, rfl⟩
    | escape _ =>
      cases hcs
      exact absurd rfl hescape
  · rintro ⟨body, close, rest, hbody, hclose, hrest, rfl⟩
    refine ⟨c :: body, close, rest, .char (fun heq => h (.inl heq)) ?_ hescape hbody, hclose,
      hrest, rfl⟩
    exact Bool.eq_false_iff.mpr fun hbreak => h (.inr hbreak)

theorem closesString_escape : ClosesString quote ('\\' :: c :: cs) ↔ ClosesString quote cs := by
  constructor
  · rintro ⟨body, close, rest, hbody, hclose, hrest, hcs⟩
    cases hbody with
    | nil =>
      cases hcs
      exact absurd hclose (not_ends_backslash quote)
    | char _ _ hescape _ => exact absurd (List.cons.inj hcs).1.symm hescape
    | escape hbody =>
      cases hcs
      exact ⟨_, close, rest, hbody, hclose, hrest, rfl⟩
  · rintro ⟨body, close, rest, hbody, hclose, hrest, rfl⟩
    exact ⟨'\\' :: c :: body, close, rest, .escape hbody, hclose, hrest, rfl⟩

theorem closesComment_end : ClosesComment ('*' :: '/' :: cs) ↔ Complete cs := by
  constructor
  · rintro ⟨body, rest, hbody, hrest, hcs⟩
    match body with
    | [] =>
      cases hcs
      exact hrest
    | [_] => simp at hcs
    | first :: second :: body =>
      obtain ⟨hstar, hcs⟩ := List.cons.inj hcs
      obtain ⟨hslash, -⟩ := List.cons.inj hcs
      rw [← hstar, ← hslash] at hbody
      exact absurd (List.prefix_append ['*', '/'] body).isInfix hbody
  · intro hrest
    exact ⟨[], cs, by decide, hrest, rfl⟩

/-- Where no end of a comment begins, the comment goes on. -/
theorem closesComment_char (h : ¬ ['*', '/'] <+: c :: cs) :
    ClosesComment (c :: cs) ↔ ClosesComment cs := by
  constructor
  · rintro ⟨body, rest, hbody, hrest, hcs⟩
    cases body with
    | nil => exact absurd ⟨rest, hcs.symm⟩ h
    | cons d body =>
      cases hcs
      exact ⟨body, rest, fun hmem => hbody (List.infix_cons hmem), hrest, rfl⟩
  · rintro ⟨body, rest, hbody, hrest, rfl⟩
    refine ⟨c :: body, rest, fun hmem => ?_, hrest, rfl⟩
    rcases List.infix_cons_iff.mp hmem with hfirst | hlater
    · exact h (hfirst.trans (List.prefix_append (c :: body) _))
    · exact hbody hlater

/-! ## One character at a time -/

namespace Lexing

/-- What a reader needs to be outside again. -/
def Completes : Lexing → List Char → Prop
  | .outside, cs => Complete cs
  | .slash, cs => Complete ('/' :: cs)
  | .escape, cs => Complete ('\\' :: cs)
  | .quoted quote, cs => ClosesString quote cs
  | .quotedEscape quote, cs => ClosesString quote ('\\' :: cs)
  | .comment, cs => ClosesComment cs
  | .commentStar, cs => ClosesComment ('*' :: cs)

theorem completes_opened : Completes (opened c) cs ↔ Complete (c :: cs) := by
  unfold opened
  split
  case isTrue hdouble =>
    rw [hdouble]
    have hquote : Complete (Quote.double.char :: cs) ↔ _ := complete_quote
    exact hquote.symm
  split
  case isTrue hsingle =>
    rw [hsingle]
    have hquote : Complete (Quote.single.char :: cs) ↔ _ := complete_quote
    exact hquote.symm
  split
  case isTrue hescape =>
    rw [hescape]
    rfl
  split
  case isTrue hslash =>
    rw [hslash]
    rfl
  case isFalse hdouble hsingle hescape hslash =>
    refine (complete_char ?_ hescape fun hcomment => ?_).symm
    · intro quote
      cases quote
      · exact hsingle
      · exact hdouble
    · exact hslash (List.cons_prefix_cons.mp hcomment).1.symm

/-- Reading a character leaves just the rest to be completed. -/
theorem completes_next (state : Lexing) :
    Completes (state.next c) cs ↔ Completes state (c :: cs) := by
  cases state with
  | outside => exact completes_opened
  | slash =>
    simp only [next]
    split
    case isTrue hstar =>
      rw [hstar]
      exact complete_slash_star.symm
    case isFalse hstar =>
      have hno : ¬ ['/', '*'] <+: '/' :: c :: cs := fun h =>
        hstar (List.cons_prefix_cons.mp (List.cons_prefix_cons.mp h).2).1.symm
      have hslash : Complete ('/' :: c :: cs) ↔ Complete (c :: cs) :=
        complete_char (fun quote => quote.char_ne_slash.symm) (by decide) hno
      exact completes_opened.trans hslash.symm
  | escape => exact complete_escape.symm
  | quoted quote =>
    simp only [next]
    split
    case isTrue hends => exact (closesString_ends hends).symm
    case isFalse hends =>
      split
      case isTrue hescape =>
        rw [hescape]
        rfl
      case isFalse hescape => exact (closesString_char hends hescape).symm
  | quotedEscape quote => exact closesString_escape.symm
  | comment =>
    simp only [next]
    split
    case isTrue hstar =>
      rw [hstar]
      rfl
    case isFalse hstar =>
      exact (closesComment_char fun h => hstar (List.cons_prefix_cons.mp h).1.symm).symm
  | commentStar =>
    simp only [next]
    split
    case isTrue hslash =>
      rw [hslash]
      exact closesComment_end.symm
    case isFalse hslash =>
      have hgoes : ClosesComment ('*' :: c :: cs) ↔ ClosesComment (c :: cs) :=
        closesComment_char fun h =>
          hslash (List.cons_prefix_cons.mp (List.cons_prefix_cons.mp h).2).1.symm
      split
      case isTrue hstar =>
        rw [hstar] at hgoes ⊢
        exact hgoes.symm
      case isFalse hstar =>
        exact (hgoes.trans (closesComment_char fun h =>
          hstar (List.cons_prefix_cons.mp h).1.symm)).symm

theorem completes_nil (state : Lexing) : Completes state [] ↔ state.isOutside = true := by
  cases state with
  | outside => exact iff_of_true .nil rfl
  | slash =>
    have hslash : Complete ['/'] :=
      .char (fun quote => quote.char_ne_slash.symm) (by decide) (by decide) .nil
    exact iff_of_true hslash rfl
  | escape =>
    refine iff_of_false ?_ Bool.false_ne_true
    change ¬ Complete ['\\']
    rw [complete_backslash]
    rintro ⟨c, rest, hnone, -⟩
    cases hnone
  | quoted quote =>
    refine iff_of_false ?_ Bool.false_ne_true
    rintro ⟨body, close, rest, _, _, _, h⟩
    simp at h
  | quotedEscape quote =>
    refine iff_of_false ?_ Bool.false_ne_true
    rintro ⟨body, close, rest, _, hclose, _, h⟩
    cases body with
    | nil =>
      cases h
      exact not_ends_backslash quote hclose
    | cons _ _ => simp at h
  | comment =>
    refine iff_of_false ?_ Bool.false_ne_true
    rintro ⟨body, rest, _, _, h⟩
    simp at h
  | commentStar =>
    refine iff_of_false ?_ Bool.false_ne_true
    rintro ⟨body, rest, _, _, h⟩
    cases body with
    | nil => cases h
    | cons _ _ => simp at h

/-- A reader is outside at the end of just the texts that complete what it has begun. -/
theorem isOutside_foldl_iff (state : Lexing) :
    (cs.foldl next state).isOutside = true ↔ Completes state cs := by
  induction cs generalizing state with
  | nil => exact (completes_nil state).symm
  | cons c cs ih => exact (ih (state.next c)).trans (completes_next state)

end Lexing

/-- A reader that begins outside is outside again at the end of just the complete texts. -/
theorem endsOutside_iff {text : String} : EndsOutside text ↔ Complete text.toList :=
  Lexing.isOutside_foldl_iff .outside

end DesignTokens.Css
