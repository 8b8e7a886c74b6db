import DesignTokens.Proofs.Decimal.Layout
import DesignTokens.Proofs.Json.Strings
import DesignTokens.Proofs.Lists
/-!
# Printed values can be cut off

The compact form of a value tells the value.  A string, an array and an object are closed by a
character of their own; the other values are words that end before the first character that is part
of no word.
-/

set_option autoImplicit false

namespace DesignTokens.Json

/-! ## Words -/

/-- Whether a character can be part of a word: a letter, a digit, a point or a sign. -/
def isWordChar (c : Char) : Bool :=
  c.isAlphanum || c == '.' || c == '+' || c == '-'

/-- Only characters of words. -/
def IsWord (cs : List Char) : Prop :=
  ∀ c ∈ cs, isWordChar c = true

instance (cs : List Char) : Decidable (IsWord cs) :=
  decidable_of_iff (cs.all isWordChar = true) List.all_eq_true

/-- What follows a word: nothing, or something that begins with no character of a word. -/
def Ends (cs : List Char) : Prop :=
  ∀ c ∈ cs.head?, isWordChar c = false

theorem ends_nil : Ends [] :=
  fun _ hc => by cases hc

theorem ends_cons {c : Char} (h : isWordChar c = false) (cs : List Char) : Ends (c :: cs) := by
  intro d hd
  cases hd
  exact h

theorem IsWord.takeWhile_append {word s : List Char} (hword : IsWord word) (hs : Ends s) :
    (word ++ s).takeWhile isWordChar = word :=
  Lists.takeWhile_append_eq hword hs

/-- A word and what follows it can be told apart. -/
theorem IsWord.append_inj {first second s t : List Char} (h₁ : IsWord first) (h₂ : IsWord second)
    (hs : Ends s) (ht : Ends t) (h : first ++ s = second ++ t) : first = second ∧ s = t := by
  have hsame : first = second := by
    rw [← h₁.takeWhile_append hs, h, h₂.takeWhile_append ht]
  subst hsame
  exact ⟨rfl, List.append_cancel_left h⟩

/-! ## Values that are words -/

/-- The kinds of printed values, as the first character tells them. -/
inductive Shape where
  | word
  | string
  | array
  | object
  deriving DecidableEq

/-- The shape of a value. -/
def shape : Json → Shape
  | .null => .word
  | .bool _ => .word
  | .int _ => .word
  | .float _ => .word
  | .str _ => .string
  | .arr _ => .array
  | .obj _ => .object

theorem exists_of_shape_string {x : Json} (h : shape x = .string) : ∃ s, x = .str s := by
  cases x <;> first | exact ⟨_, rfl⟩ | cases h

theorem exists_of_shape_array {x : Json} (h : shape x = .array) : ∃ items, x = .arr items := by
  cases x <;> first | exact ⟨_, rfl⟩ | cases h

theorem exists_of_shape_object {x : Json} (h : shape x = .object) : ∃ fields, x = .obj fields := by
  cases x <;> first | exact ⟨_, rfl⟩ | cases h

/-- How the text of a number begins. -/
def isNumberStart (c : Char) : Bool :=
  c.isDigit || c == '-' || c == 'I' || c == 'N'

theorem render_int (n : Int) : (render (.int n)).toList =
    if 0 ≤ n then Nat.toDigits 10 n.toNat else '-' :: Nat.toDigits 10 (-n).toNat := by
  rw [render, Int.toString_eq_repr, Int.repr_eq_if]
  split <;> simp

theorem isDigit_or_sign_of_mem_render_int {n : Int} {c : Char}
    (h : c ∈ (render (.int n)).toList) : c.isDigit = true ∨ c = '-' := by
  rw [render_int] at h
  split at h
  · exact .inl (Decimal.allDigits_toDigits _ c h)
  · rcases List.mem_cons.mp h with rfl | h
    · exact .inr rfl
    · exact .inl (Decimal.allDigits_toDigits _ c h)

theorem isWord_render_int (n : Int) : IsWord (render (.int n)).toList := by
  intro c hc
  rcases isDigit_or_sign_of_mem_render_int hc with hdigit | rfl
  · simp [isWordChar, Char.isAlphanum, hdigit]
  · rfl

theorem toDigits_inj {m n : Nat} (h : Nat.toDigits 10 m = Nat.toDigits 10 n) : m = n := by
  have hread := congrArg (fun digits => Nat.ofDigitChars 10 digits 0) h
  rwa [Nat.ofDigitChars_ten_toDigits, Nat.ofDigitChars_ten_toDigits] at hread

/-- The digits of a number do not begin with a sign. -/
theorem toDigits_ne_cons_sign (n : Nat) (cs : List Char) : Nat.toDigits 10 n ≠ '-' :: cs := by
  intro h
  have hdigit := Decimal.allDigits_toDigits n '-' (h ▸ List.mem_cons_self)
  cases hdigit

theorem render_int_inj {m n : Int} (h : render (.int m) = render (.int n)) : m = n := by
  have htext := congrArg String.toList h
  rw [render_int, render_int] at htext
  by_cases hm : 0 ≤ m <;> by_cases hn : 0 ≤ n
  · rw [if_pos hm, if_pos hn] at htext
    have hnat := toDigits_inj htext
    omega
  · rw [if_pos hm, if_neg hn] at htext
    exact absurd htext (toDigits_ne_cons_sign _ _)
  · rw [if_neg hm, if_pos hn] at htext
    exact absurd htext.symm (toDigits_ne_cons_sign _ _)
  · rw [if_neg hm, if_neg hn] at htext
    have hnat := toDigits_inj (List.cons.inj htext).2
    omega

theorem exists_start_render_int (n : Int) :
    ∃ first rest, (render (.int n)).toList = first :: rest ∧ isNumberStart first = true := by
  have hne : (render (.int n)).toList ≠ [] := by
    rw [render_int]
    split
    · exact Nat.toDigits_ne_nil
    · exact List.cons_ne_nil _ _
  obtain ⟨first, rest, hcons⟩ := List.exists_cons_of_ne_nil hne
  refine ⟨first, rest, hcons, ?_⟩
  have hmem : first ∈ (render (.int n)).toList := hcons ▸ List.mem_cons_self
  rcases isDigit_or_sign_of_mem_render_int hmem with hdigit | rfl
  · simp [isNumberStart, hdigit]
  · rfl

theorem isWord_magnitudeText (x : Binary64) : IsWord (Decimal.magnitudeText x) := by
  cases hfinite : x.isFinite with
  | false =>
    rw [Decimal.magnitudeText_of_infinite hfinite]
    decide
  | true =>
    intro c hc
    have hchar := (Decimal.numeral_magnitudeText hfinite).isNumeralChar c hc
    unfold Decimal.isNumeralChar at hchar
    unfold isWordChar Char.isAlphanum
    by_cases he : c = 'e'
    · subst he
      rfl
    · simp only [Bool.or_eq_true, beq_iff_eq, he, or_false] at hchar ⊢
      rcases hchar with ((hdigit | hpoint) | hplus) | hminus <;> simp [*]

theorem isWord_render_float (x : Binary64) : IsWord (render (.float x)).toList := by
  rw [render]
  cases hnan : x.isNaN with
  | true =>
    rw [Decimal.render_of_isNaN hnan]
    decide
  | false =>
    rw [Decimal.render_floatLayout hnan]
    intro c hc
    rcases List.mem_append.mp hc with hsign | hbody
    · have hc : c = '-' := by
        split at hsign
        · exact List.mem_singleton.mp hsign
        · cases hsign
      rw [hc]
      rfl
    · exact isWord_magnitudeText x c hbody

theorem exists_start_render_float (x : Binary64) :
    ∃ first rest, (render (.float x)).toList = first :: rest ∧ isNumberStart first = true := by
  rw [render]
  cases hnan : x.isNaN with
  | true => exact ⟨'N', ['a', 'N'], by rw [Decimal.render_of_isNaN hnan]; rfl, rfl⟩
  | false =>
    obtain ⟨first, rest, hcons, hfirst⟩ := Decimal.render_head hnan
    refine ⟨first, rest, hcons, ?_⟩
    rcases hfirst with hdigit | rfl | rfl
    · simp [isNumberStart, hdigit]
    · rfl
    · rfl

/-- The text of a floating point number is that of no integer: it has a point, the mark of an
exponent, or letters. -/
theorem render_float_ne_render_int (x : Binary64) (n : Int) :
    render (.float x) ≠ render (.int n) := by
  intro h
  have hchars : ∀ c ∈ (render (.float x)).toList, c.isDigit = true ∨ c = '-' := by
    intro c hc
    rw [h] at hc
    exact isDigit_or_sign_of_mem_render_int hc
  rw [render] at hchars
  cases hnan : x.isNaN with
  | true =>
    rw [Decimal.render_of_isNaN hnan] at hchars
    exact absurd (hchars 'N' (by decide)) (by decide)
  | false =>
    rw [Decimal.render_floatLayout hnan] at hchars
    cases hfinite : x.isFinite with
    | false =>
      rw [Decimal.magnitudeText_of_infinite hfinite] at hchars
      exact absurd (hchars 'I' (List.mem_append_right _ (by decide))) (by decide)
    | true =>
      rcases (Decimal.numeral_magnitudeText hfinite).exists_mark with hpoint | hmark
      · exact absurd (hchars '.' (List.mem_append_right _ hpoint)) (by decide)
      · exact absurd (hchars 'e' (List.mem_append_right _ hmark)) (by decide)

theorem isWord_render {x : Json} (h : shape x = .word) : IsWord (render x).toList := by
  cases x with
  | null => rw [render]; decide
  | bool b => cases b <;> (rw [render]; decide)
  | int n => exact isWord_render_int n
  | float x => exact isWord_render_float x
  | str s => cases h
  | arr items => cases h
  | obj fields => cases h

/-- The words for null and for the truth values are no numbers. -/
theorem render_ne_of_start {x : Json} {word : String}
    (h : ∃ first rest, (render x).toList = first :: rest ∧ isNumberStart first = true)
    (hword : ∀ c ∈ word.toList.head?, isNumberStart c = false) : render x ≠ word := by
  intro heq
  obtain ⟨first, rest, hcons, hfirst⟩ := h
  rw [heq] at hcons
  rw [hword first (by rw [hcons]; rfl)] at hfirst
  cases hfirst

/-- The word of a value tells the value. -/
theorem render_word_inj {x y : Json} (hx : shape x = .word) (hy : shape y = .word)
    (h : render x = render y) : x = y := by
  have hnull : ∀ c ∈ "null".toList.head?, isNumberStart c = false := by
    intro c hc
    cases hc
    rfl
  have hbool : ∀ b, ∀ c ∈ (render (.bool b)).toList.head?, isNumberStart c = false := by
    intro b c hc
    cases b with
    | false =>
      rw [render] at hc
      cases hc
      rfl
    | true =>
      rw [render] at hc
      cases hc
      rfl
  cases x with
  | null =>
    cases y with
    | null => rfl
    | bool b => cases b <;> (rw [render, render] at h; exact absurd h (by decide))
    | int n => exact absurd h.symm (render_ne_of_start (exists_start_render_int n) hnull)
    | float f => exact absurd h.symm (render_ne_of_start (exists_start_render_float f) hnull)
    | str s => cases hy
    | arr items => cases hy
    | obj fields => cases hy
  | bool b =>
    cases y with
    | null => cases b <;> (rw [render, render] at h; exact absurd h (by decide))
    | bool b' =>
      cases b <;> cases b' <;> first | rfl | (rw [render, render] at h; exact absurd h (by decide))
    | int n => exact absurd h.symm (render_ne_of_start (exists_start_render_int n) (hbool b))
    | float f => exact absurd h.symm (render_ne_of_start (exists_start_render_float f) (hbool b))
    | str s => cases hy
    | arr items => cases hy
    | obj fields => cases hy
  | int n =>
    cases y with
    | null => exact absurd h (render_ne_of_start (exists_start_render_int n) hnull)
    | bool b => exact absurd h (render_ne_of_start (exists_start_render_int n) (hbool b))
    | int n' =>
      rw [render_int_inj h]
    | float f => exact absurd h.symm (render_float_ne_render_int f n)
    | str s => cases hy
    | arr items => cases hy
    | obj fields => cases hy
  | float f =>
    cases y with
    | null => exact absurd h (render_ne_of_start (exists_start_render_float f) hnull)
    | bool b => exact absurd h (render_ne_of_start (exists_start_render_float f) (hbool b))
    | int n => exact absurd h (render_float_ne_render_int f n)
    | float f' =>
      rw [render, render] at h
      rw [Decimal.floatLayout_render_injective h]
    | str s => cases hy
    | arr items => cases hy
    | obj fields => cases hy
  | str s => cases hx
  | arr items => cases hx
  | obj fields => cases hx

/-! ## Values -/

/-- The texts of later items, each after its comma, up to the end of the array. -/
def laterTexts (closing : Char) (texts : List String) : List Char :=
  texts.flatMap (fun text => ',' :: text.toList) ++ [closing]

theorem intercalate_comma (text : String) (texts : List String) :
    (",".intercalate (text :: texts)).toList =
      text.toList ++ texts.flatMap fun later => ',' :: later.toList := by
  rw [String.toList_intercalate, List.map_cons, Lists.intercalate_cons, List.flatMap_map]
  rfl

theorem render_arr_nil : (render (.arr [])).toList = ['[', ']'] := rfl

theorem render_arr_cons (x : Json) (xs : List Json) :
    (render (.arr (x :: xs))).toList =
      '[' :: (render x).toList ++ laterTexts ']' (renderItems xs) := by
  rw [render, renderItems, String.toList_append, String.toList_append, intercalate_comma]
  simp [laterTexts]

theorem render_obj_nil : (render (.obj [])).toList = ['\x7b', '\x7d'] := rfl

theorem render_obj_cons (key : String) (x : Json) (fields : Fields) :
    (render (.obj ((key, x) :: fields))).toList =
      '\x7b' :: (renderString key).toList ++ ':' :: (render x).toList ++
        laterTexts '\x7d' (renderFields fields) := by
  rw [render, renderFields, String.toList_append, String.toList_append, intercalate_comma]
  simp [laterTexts]

theorem laterTexts_cons (closing : Char) (text : String) (texts : List String) :
    laterTexts closing (text :: texts) = ',' :: text.toList ++ laterTexts closing texts := by
  simp [laterTexts]

/-- Later items begin with a comma or with the end. -/
theorem ends_laterTexts {closing : Char} (hclosing : isWordChar closing = false)
    (texts : List String) (s : List Char) : Ends (laterTexts closing texts ++ s) := by
  cases texts with
  | nil => exact ends_cons hclosing _
  | cons text texts => exact ends_cons rfl _

/-- The first character of a printed value tells its shape. -/
def shapeOf (c : Char) : Option Shape :=
  if c = '"' then some .string
  else if c = '[' then some .array
  else if c = '\x7b' then some .object
  else if isWordChar c then some .word
  else none

theorem shapeOf_of_isDigit {c : Char} (h : c.isDigit = true) : shapeOf c = some .word := by
  have hne : ∀ d : Char, d.isDigit = false → c ≠ d := by
    intro d hd heq
    rw [heq, hd] at h
    cases h
  have hword : isWordChar c = true := by
    simp [isWordChar, Char.isAlphanum, h]
  rw [shapeOf, if_neg (hne _ rfl), if_neg (hne _ rfl), if_neg (hne _ rfl), if_pos hword]

theorem shapeOf_of_isNumberStart {c : Char} (h : isNumberStart c = true) :
    shapeOf c = some .word := by
  unfold isNumberStart at h
  simp only [Bool.or_eq_true, beq_iff_eq] at h
  rcases h with ((hdigit | rfl) | rfl) | rfl
  · exact shapeOf_of_isDigit hdigit
  · rfl
  · rfl
  · rfl

theorem exists_head_render (x : Json) :
    ∃ first rest, (render x).toList = first :: rest ∧ shapeOf first = some (shape x) := by
  cases x with
  | null => exact ⟨'n', _, rfl, rfl⟩
  | bool b => cases b <;> exact ⟨_, _, rfl, rfl⟩
  | int n =>
    obtain ⟨first, rest, hcons, hfirst⟩ := exists_start_render_int n
    exact ⟨first, rest, hcons, shapeOf_of_isNumberStart hfirst⟩
  | float x =>
    obtain ⟨first, rest, hcons, hfirst⟩ := exists_start_render_float x
    exact ⟨first, rest, hcons, shapeOf_of_isNumberStart hfirst⟩
  | str s => exact ⟨'"', _, renderString_toList s, rfl⟩
  | arr items =>
    cases items with
    | nil => exact ⟨'[', _, render_arr_nil, rfl⟩
    | cons x xs => exact ⟨'[', _, render_arr_cons x xs, rfl⟩
  | obj fields =>
    cases fields with
    | nil => exact ⟨'\x7b', _, render_obj_nil, rfl⟩
    | cons field fields => exact ⟨'\x7b', _, render_obj_cons field.1 field.2 fields, rfl⟩

/-- Values whose texts begin alike have the same shape. -/
theorem shape_eq_of_append {x y : Json} {s t : List Char}
    (h : (render x).toList ++ s = (render y).toList ++ t) : shape x = shape y := by
  obtain ⟨first, rest, hcons, hfirst⟩ := exists_head_render x
  obtain ⟨first', rest', hcons', hfirst'⟩ := exists_head_render y
  rw [hcons, hcons'] at h
  rw [(List.cons.inj h).1, hfirst'] at hfirst
  exact (Option.some.inj hfirst).symm

/-- No value begins like the end of an array or of an object. -/
theorem render_append_ne_closing (x : Json) {closing : Char} (hclosing : shapeOf closing = none)
    (s t : List Char) : (render x).toList ++ s ≠ closing :: t := by
  intro h
  obtain ⟨first, rest, hcons, hfirst⟩ := exists_head_render x
  rw [hcons] at h
  rw [(List.cons.inj h).1, hclosing] at hfirst
  cases hfirst

mutual

/-- The text of a value tells the value and what follows it. -/
theorem render_append_inj (x y : Json) {s t : List Char} (hs : Ends s) (ht : Ends t)
    (h : (render x).toList ++ s = (render y).toList ++ t) : x = y ∧ s = t := by
  have hshape := shape_eq_of_append h
  have hword : shape x = .word → x = y ∧ s = t := by
    intro hx
    obtain ⟨htext, hrest⟩ := (isWord_render hx).append_inj (isWord_render (hshape ▸ hx)) hs ht h
    exact ⟨render_word_inj hx (hshape ▸ hx) (String.toList_inj.mp htext), hrest⟩
  cases x with
  | null => exact hword rfl
  | bool b => exact hword rfl
  | int n => exact hword rfl
  | float f => exact hword rfl
  | str string =>
    obtain ⟨_, rfl⟩ := exists_of_shape_string hshape.symm
    obtain ⟨rfl, hrest⟩ := renderString_append_inj h
    exact ⟨rfl, hrest⟩
  | arr xs =>
    obtain ⟨ys, rfl⟩ := exists_of_shape_array hshape.symm
    obtain ⟨rfl, hrest⟩ := array_append_inj xs ys h
    exact ⟨rfl, hrest⟩
  | obj xs =>
    obtain ⟨ys, rfl⟩ := exists_of_shape_object hshape.symm
    obtain ⟨rfl, hrest⟩ := object_append_inj xs ys h
    exact ⟨rfl, hrest⟩

/-- The text of an array tells its items and what follows it. -/
theorem array_append_inj (xs ys : List Json) {s t : List Char}
    (h : (render (.arr xs)).toList ++ s = (render (.arr ys)).toList ++ t) : xs = ys ∧ s = t := by
  match xs, ys with
  | [], [] => exact ⟨rfl, List.append_cancel_left h⟩
  | [], y :: ys =>
    rw [render_arr_nil, render_arr_cons, List.append_assoc] at h
    exact absurd (List.cons.inj h).2.symm (render_append_ne_closing y rfl _ _)
  | x :: xs, [] =>
    rw [render_arr_nil, render_arr_cons, List.append_assoc] at h
    exact absurd (List.cons.inj h).2 (render_append_ne_closing x rfl _ _)
  | x :: xs, y :: ys =>
    rw [render_arr_cons, render_arr_cons, List.append_assoc, List.append_assoc] at h
    obtain ⟨rfl, hlater⟩ := render_append_inj x y (ends_laterTexts rfl _ _) (ends_laterTexts rfl _ _)
      (List.cons.inj h).2
    obtain ⟨rfl, hrest⟩ := laterItems_append_inj xs ys hlater
    exact ⟨rfl, hrest⟩

/-- The text of an object tells its pairs and what follows it. -/
theorem object_append_inj (xs ys : Fields) {s t : List Char}
    (h : (render (.obj xs)).toList ++ s = (render (.obj ys)).toList ++ t) : xs = ys ∧ s = t := by
  match xs, ys with
  | [], [] => exact ⟨rfl, List.append_cancel_left h⟩
  | [], (key, y) :: ys =>
    rw [render_obj_nil, render_obj_cons, renderString_toList] at h
    exact absurd (List.cons.inj (List.cons.inj h).2).1 (by decide)
  | (key, x) :: xs, [] =>
    rw [render_obj_nil, render_obj_cons, renderString_toList] at h
    exact absurd (List.cons.inj (List.cons.inj h).2).1 (by decide)
  | (key, x) :: xs, (key', y) :: ys =>
    rw [render_obj_cons, render_obj_cons] at h
    simp only [List.cons_append, List.append_assoc, List.cons.injEq, true_and] at h
    obtain ⟨rfl, hvalue⟩ := renderString_append_inj h
    obtain ⟨rfl, hlater⟩ := render_append_inj x y (ends_laterTexts rfl _ _) (ends_laterTexts rfl _ _)
      (List.cons.inj hvalue).2
    obtain ⟨rfl, hrest⟩ := laterFields_append_inj xs ys hlater
    exact ⟨rfl, hrest⟩

/-- The texts of later items tell the items and what follows the end. -/
theorem laterItems_append_inj (xs ys : List Json) {s t : List Char}
    (h : laterTexts ']' (renderItems xs) ++ s = laterTexts ']' (renderItems ys) ++ t) :
    xs = ys ∧ s = t := by
  match xs, ys with
  | [], [] => exact ⟨rfl, (List.cons.inj h).2⟩
  | [], y :: ys =>
    rw [renderItems, renderItems, laterTexts_cons] at h
    exact absurd (List.cons.inj h).1 (by decide)
  | x :: xs, [] =>
    rw [renderItems, renderItems, laterTexts_cons] at h
    exact absurd (List.cons.inj h).1 (by decide)
  | x :: xs, y :: ys =>
    rw [renderItems, renderItems, laterTexts_cons, laterTexts_cons] at h
    simp only [List.cons_append, List.append_assoc, List.cons.injEq, true_and] at h
    obtain ⟨rfl, hlater⟩ := render_append_inj x y (ends_laterTexts rfl _ _) (ends_laterTexts rfl _ _) h
    obtain ⟨rfl, hrest⟩ := laterItems_append_inj xs ys hlater
    exact ⟨rfl, hrest⟩

/-- The texts of later pairs tell the pairs and what follows the end. -/
theorem laterFields_append_inj (xs ys : Fields) {s t : List Char}
    (h : laterTexts '\x7d' (renderFields xs) ++ s = laterTexts '\x7d' (renderFields ys) ++ t) :
    xs = ys ∧ s = t := by
  match xs, ys with
  | [], [] => exact ⟨rfl, (List.cons.inj h).2⟩
  | [], (key, y) :: ys =>
    rw [renderFields, renderFields, laterTexts_cons] at h
    exact absurd (List.cons.inj h).1 (by decide)
  | (key, x) :: xs, [] =>
    rw [renderFields, renderFields, laterTexts_cons] at h
    exact absurd (List.cons.inj h).1 (by decide)
  | (key, x) :: xs, (key', y) :: ys =>
    rw [renderFields, renderFields, laterTexts_cons, laterTexts_cons] at h
    simp only [String.toList_append, List.cons_append, List.append_assoc, List.cons.injEq,
      true_and] at h
    obtain ⟨rfl, hvalue⟩ := renderString_append_inj h
    obtain ⟨rfl, hlater⟩ := render_append_inj x y (ends_laterTexts rfl _ _) (ends_laterTexts rfl _ _)
      (List.cons.inj hvalue).2
    obtain ⟨rfl, hrest⟩ := laterFields_append_inj xs ys hlater
    exact ⟨rfl, hrest⟩

end

/-- The compact form of a value tells the value. -/
theorem render_injective {x y : Json} (h : render x = render y) : x = y :=
  (render_append_inj x y ends_nil ends_nil (by rw [h])).1

end DesignTokens.Json
