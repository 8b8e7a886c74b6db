import DesignTokens.Proofs.Json.Integers
import DesignTokens.Proofs.Json.Printer
/-!
# Texts as they are written

The grammar of texts, apart from the reader: trees that keep every blank, every escape and every digit
as it is written, and that can be built only as the grammar allows it.  The reader takes the text of
such a tree from the front of what it is given, and yields the value that the tree tells, or the first
key that is repeated in the object that closes first among those that repeat one.
-/

set_option autoImplicit false

namespace DesignTokens.Json

/-! ## Blanks, strings and numbers -/

/-- Blanks between two parts of a text. -/
structure Blanks where
  chars : List Char
  blank : ∀ c ∈ chars, isSpace c = true

/-- A character of a string: itself, an escape of one letter, or the four digits of a UTF-16 unit. -/
inductive Mark where
  | plain (c : Char) (hquote : c ≠ '"') (hescape : c ≠ '\\') (hcontrol : 0x1F < c.toNat)
  | short (letter meaning : Char) (h : simpleEscape? letter = some meaning)
  | unit (h1 h2 h3 h4 : Char) (value : Nat) (h : hexValue? [h1, h2, h3, h4] = some value)

namespace Mark

/-- A character as it is written. -/
def text : Mark → List Char
  | .plain c _ _ _ => [c]
  | .short letter _ _ => ['\\', letter]
  | .unit h1 h2 h3 h4 _ _ => ['\\', 'u', h1, h2, h3, h4]

/-- The UTF-16 unit or code point that it stands for. -/
def value : Mark → Nat
  | .plain c _ _ _ => c.toNat
  | .short _ meaning _ => meaning.toNat
  | .unit _ _ _ _ value _ => value

end Mark

/-- A string as it is written, between its quotes. -/
abbrev Marks := List Mark

namespace Marks

/-- A string from its first character to the closing quote. -/
def closed (marks : Marks) : List Char :=
  marks.flatMap Mark.text ++ ['"']

/-- The code points of a string, once its escapes are decoded. -/
def points (marks : Marks) : CodePoints :=
  joinSurrogates (marks.map Mark.value)

end Marks

/-- Decimal digits, at least one. -/
structure Digits where
  chars : List Char
  ne_nil : chars ≠ []
  digit : ∀ c ∈ chars, c.isDigit = true

/-- The power of a number: a mark in either case, a sign if any, and digits. -/
structure Power where
  upper : Bool
  sign : Option Bool
  digits : Digits

/-- A number: digits that do not begin with zero, unless they are zero alone, with a sign, a fraction
and a power if any. -/
structure Numeral where
  negative : Bool
  whole : Digits
  leading : whole.chars.head? = some '0' → whole.chars = ['0']
  fraction : Option Digits
  power : Option Power

/-- The size of a power. -/
def Power.value (power : Power) : Int :=
  let size : Int := decimalValue power.digits.chars
  if power.sign = some true then -size else size

/-- The sign of a power as it is written. -/
def signText : Option Bool → List Char
  | some true => ['-']
  | some false => ['+']
  | none => []

/-- A power as it is written. -/
def Power.text (power : Power) : List Char :=
  (if power.upper then 'E' else 'e') :: (signText power.sign ++ power.digits.chars)

/-- A fraction as it is written. -/
def Digits.afterPoint (digits : Digits) : List Char :=
  '.' :: digits.chars

namespace Numeral

/-- A number as it is written. -/
def text (numeral : Numeral) : List Char :=
  (if numeral.negative then ['-'] else []) ++ numeral.whole.chars ++
    (numeral.fraction.map Digits.afterPoint).getD [] ++ (numeral.power.map Power.text).getD []

/-- The parts of a number. -/
def parts (numeral : Numeral) : NumberText where
  negative := numeral.negative
  whole := numeral.whole.chars
  fraction := numeral.fraction.map Digits.chars
  power := numeral.power.map Power.value

end Numeral

/-! ## Values -/

mutual

/-- A value as it is written. -/
inductive Written where
  | word (text : String) (value : Json) (h : (text, value) ∈ wordValues)
  | number (numeral : Numeral) (value : Json) (h : numeral.parts.value = .ok value)
  | string (marks : Marks)
  | emptyArray (inside : Blanks)
  | array (before : Blanks) (items : WrittenItems)
  | emptyObject (inside : Blanks)
  | object (before : Blanks) (members : WrittenMembers)

/-- The items of an array, each with the blanks after it. -/
inductive WrittenItems where
  | last (item : Written) (after : Blanks)
  | cons (item : Written) (after before : Blanks) (rest : WrittenItems)

/-- The pairs of an object, each with the blanks around the colon and after the value. -/
inductive WrittenMembers where
  | last (key : Marks) (afterKey before : Blanks) (value : Written) (after : Blanks)
  | cons (key : Marks) (afterKey before : Blanks) (value : Written) (after next : Blanks)
      (rest : WrittenMembers)

end

mutual

/-- The text of a value. -/
def Written.text : Written → List Char
  | .word text _ _ => text.toList
  | .number numeral _ _ => numeral.text
  | .string marks => '"' :: marks.closed
  | .emptyArray inside => '[' :: (inside.chars ++ [']'])
  | .array before items => '[' :: (before.chars ++ items.text ++ [']'])
  | .emptyObject inside => '\x7b' :: (inside.chars ++ ['\x7d'])
  | .object before members => '\x7b' :: (before.chars ++ members.text ++ ['\x7d'])

/-- The text of items, without the brackets. -/
def WrittenItems.text : WrittenItems → List Char
  | .last item after => item.text ++ after.chars
  | .cons item after before rest => item.text ++ after.chars ++ ',' :: (before.chars ++ rest.text)

/-- The text of pairs, without the braces. -/
def WrittenMembers.text : WrittenMembers → List Char
  | .last key afterKey before value after =>
    '"' :: key.closed ++ afterKey.chars ++ ':' :: (before.chars ++ value.text ++ after.chars)
  | .cons key afterKey before value after next rest =>
    '"' :: key.closed ++ afterKey.chars ++ ':' :: (before.chars ++ value.text ++ after.chars) ++
      ',' :: (next.chars ++ rest.text)

end

mutual

/-- The value that a tree tells: an object has all of its pairs, in the order of the text. -/
def Written.value : Written → Json
  | .word _ value _ => value
  | .number _ value _ => value
  | .string marks => .str (textOf marks.points)
  | .emptyArray _ => .arr []
  | .array _ items => .arr items.values
  | .emptyObject _ => .obj []
  | .object _ members => .obj (fieldsOf members.pairs)

/-- The values of items. -/
def WrittenItems.values : WrittenItems → List Json
  | .last item _ => [item.value]
  | .cons item _ _ rest => item.value :: rest.values

/-- The pairs, each with the code points of its key. -/
def WrittenMembers.pairs : WrittenMembers → Members
  | .last key _ _ value _ => [(key.points, value.value)]
  | .cons key _ _ value _ _ rest => (key.points, value.value) :: rest.pairs

end

/-- An object in a text: where its closing brace stands, and its keys, in order. -/
structure ObjectKeys where
  closing : Nat
  keys : List CodePoints
  deriving DecidableEq, Repr

mutual

/-- The objects in the text of a value that begins at a place. -/
def Written.objects (start : Nat) : Written → List ObjectKeys
  | .word _ _ _ => []
  | .number _ _ _ => []
  | .string _ => []
  | .emptyArray _ => []
  | .array before items => items.objects (start + 1 + before.chars.length)
  | .emptyObject inside => [⟨start + 1 + inside.chars.length, []⟩]
  | .object before members =>
    members.objects (start + 1 + before.chars.length) ++
      [⟨start + 1 + before.chars.length + members.text.length, OrderedMap.keys members.pairs⟩]

/-- The objects in the text of items. -/
def WrittenItems.objects (start : Nat) : WrittenItems → List ObjectKeys
  | .last item _ => item.objects start
  | .cons item after before rest =>
    item.objects start ++
      rest.objects (start + item.text.length + after.chars.length + 1 + before.chars.length)

/-- The objects in the text of pairs. -/
def WrittenMembers.objects (start : Nat) : WrittenMembers → List ObjectKeys
  | .last key afterKey before value _ =>
    value.objects (start + 1 + key.closed.length + afterKey.chars.length + 1 + before.chars.length)
  | .cons key afterKey before value after next rest =>
    value.objects (start + 1 + key.closed.length + afterKey.chars.length + 1 +
        before.chars.length) ++
      rest.objects (start + 1 + key.closed.length + afterKey.chars.length + 1 +
        before.chars.length + value.text.length + after.chars.length + 1 + next.chars.length)

end

/-- A whole text: a value with nothing but blanks around it. -/
structure WrittenText where
  before : Blanks
  body : Written
  after : Blanks

namespace WrittenText

/-- The characters of a text. -/
def chars (document : WrittenText) : List Char :=
  document.before.chars ++ (document.body.text ++ document.after.chars)

/-- A text as a string. -/
def string (document : WrittenText) : String :=
  String.ofList document.chars

/-- The value that a text tells. -/
def value (document : WrittenText) : Json :=
  document.body.value

/-- The objects in a text. -/
def objects (document : WrittenText) : List ObjectKeys :=
  document.body.objects document.before.chars.length

end WrittenText

/-! ## Where objects close -/

mutual

/-- Every object of a value closes at a brace in its text. -/
theorem Written.exists_closing (written : Written) {start : Nat} {object : ObjectKeys}
    (h : object ∈ written.objects start) :
    ∃ before after, written.text = before ++ '\x7d' :: after ∧
      object.closing = start + before.length := by
  match written with
  | .word _ _ _ => cases h
  | .number _ _ _ => cases h
  | .string _ => cases h
  | .emptyArray _ => cases h
  | .array before items =>
    obtain ⟨inside, after, htext, hclosing⟩ := items.exists_closing h
    refine ⟨'[' :: (before.chars ++ inside), after ++ [']'], ?_, ?_⟩
    · simp [Written.text, htext]
    · simp only [List.length_cons, List.length_append]
      omega
  | .emptyObject inside =>
    rw [List.mem_singleton.mp h]
    refine ⟨'\x7b' :: inside.chars, [], ?_, ?_⟩
    · simp [Written.text]
    · simp only [List.length_cons]
      omega
  | .object before members =>
    rcases List.mem_append.mp h with hinner | hself
    · obtain ⟨inside, after, htext, hclosing⟩ := members.exists_closing hinner
      refine ⟨'\x7b' :: (before.chars ++ inside), after ++ ['\x7d'], ?_, ?_⟩
      · simp [Written.text, htext]
      · simp only [List.length_cons, List.length_append]
        omega
    · rw [List.mem_singleton.mp hself]
      refine ⟨'\x7b' :: (before.chars ++ members.text), [], ?_, ?_⟩
      · simp [Written.text]
      · simp only [List.length_cons, List.length_append]
        omega

theorem WrittenItems.exists_closing (items : WrittenItems) {start : Nat} {object : ObjectKeys}
    (h : object ∈ items.objects start) :
    ∃ before after, items.text = before ++ '\x7d' :: after ∧
      object.closing = start + before.length := by
  match items with
  | .last item blanks =>
    obtain ⟨before, after, htext, hclosing⟩ := item.exists_closing h
    exact ⟨before, after ++ blanks.chars, by simp [WrittenItems.text, htext], hclosing⟩
  | .cons item blanks next rest =>
    rcases List.mem_append.mp h with hitem | hrest
    · obtain ⟨before, after, htext, hclosing⟩ := item.exists_closing hitem
      refine ⟨before, after ++ blanks.chars ++ ',' :: (next.chars ++ rest.text), ?_, hclosing⟩
      simp [WrittenItems.text, htext]
    · obtain ⟨before, after, htext, hclosing⟩ := rest.exists_closing hrest
      refine ⟨item.text ++ blanks.chars ++ ',' :: (next.chars ++ before), after, ?_, ?_⟩
      · simp [WrittenItems.text, htext]
      · simp only [List.length_cons, List.length_append]
        omega

theorem WrittenMembers.exists_closing (members : WrittenMembers) {start : Nat}
    {object : ObjectKeys} (h : object ∈ members.objects start) :
    ∃ before after, members.text = before ++ '\x7d' :: after ∧
      object.closing = start + before.length := by
  match members with
  | .last key afterKey next value blanks =>
    obtain ⟨before, after, htext, hclosing⟩ := value.exists_closing h
    refine ⟨'"' :: key.closed ++ afterKey.chars ++ ':' :: (next.chars ++ before),
      after ++ blanks.chars, ?_, ?_⟩
    · simp [WrittenMembers.text, htext]
    · simp only [List.length_cons, List.length_append]
      omega
  | .cons key afterKey next value blanks following rest =>
    rcases List.mem_append.mp h with hvalue | hrest
    · obtain ⟨before, after, htext, hclosing⟩ := value.exists_closing hvalue
      refine ⟨'"' :: key.closed ++ afterKey.chars ++ ':' :: (next.chars ++ before),
        after ++ blanks.chars ++ ',' :: (following.chars ++ rest.text), ?_, ?_⟩
      · simp [WrittenMembers.text, htext]
      · simp only [List.length_cons, List.length_append]
        omega
    · obtain ⟨before, after, htext, hclosing⟩ := rest.exists_closing hrest
      refine ⟨'"' :: key.closed ++ afterKey.chars ++
        ':' :: (next.chars ++ value.text ++ blanks.chars) ++ ',' :: (following.chars ++ before),
        after, ?_, ?_⟩
      · simp [WrittenMembers.text, htext]
      · simp only [List.length_cons, List.length_append]
        omega

end

/-- Every object of a text closes at a brace of the text. -/
theorem WrittenText.exists_closing (document : WrittenText) {object : ObjectKeys}
    (h : object ∈ document.objects) :
    ∃ before after, document.chars = before ++ '\x7d' :: after ∧
      object.closing = before.length := by
  obtain ⟨before, after, htext, hclosing⟩ := document.body.exists_closing h
  refine ⟨document.before.chars ++ before, after ++ document.after.chars, ?_, ?_⟩
  · simp [WrittenText.chars, htext]
  · rw [hclosing, List.length_append]

/-- A place at a character of a text is inside the text. -/
theorem within_of_exists_closing {text : List Char} {start closing : Nat}
    (h : ∃ before after, text = before ++ '\x7d' :: after ∧ closing = start + before.length) :
    start ≤ closing ∧ closing < start + text.length := by
  obtain ⟨before, after, htext, hclosing⟩ := h
  rw [htext, List.length_append, List.length_cons]
  omega

/-- Objects in the order of their closing braces. -/
def InOrder (objects : List ObjectKeys) : Prop :=
  objects.Pairwise fun first second => first.closing < second.closing

/-- Objects that close before a place stand in front of objects that close from there on. -/
theorem InOrder.append {first second : List ObjectKeys} (hfirst : InOrder first)
    (hsecond : InOrder second) (place : Nat) (hbefore : ∀ object ∈ first, object.closing < place)
    (hafter : ∀ object ∈ second, place ≤ object.closing) : InOrder (first ++ second) := by
  refine List.pairwise_append.mpr ⟨hfirst, hsecond, ?_⟩
  intro one hone other hother
  exact Nat.lt_of_lt_of_le (hbefore one hone) (hafter other hother)

mutual

/-- Objects stand in the order in which they close. -/
theorem Written.inOrder_objects (written : Written) (start : Nat) :
    InOrder (written.objects start) := by
  match written with
  | .word _ _ _ => exact .nil
  | .number _ _ _ => exact .nil
  | .string _ => exact .nil
  | .emptyArray _ => exact .nil
  | .array before items => exact items.inOrder_objects _
  | .emptyObject _ => exact List.pairwise_singleton _ _
  | .object before members =>
    refine (members.inOrder_objects _).append (List.pairwise_singleton _ _)
      (start + 1 + before.chars.length + members.text.length) ?_ ?_
    · intro object hobject
      exact (within_of_exists_closing (members.exists_closing hobject)).2
    · intro object hobject
      rw [List.mem_singleton.mp hobject]

theorem WrittenItems.inOrder_objects (items : WrittenItems) (start : Nat) :
    InOrder (items.objects start) := by
  match items with
  | .last item _ => exact item.inOrder_objects _
  | .cons item after before rest =>
    refine (item.inOrder_objects _).append (rest.inOrder_objects _) (start + item.text.length) ?_ ?_
    · intro object hobject
      exact (within_of_exists_closing (item.exists_closing hobject)).2
    · intro object hobject
      have hrest := (within_of_exists_closing (rest.exists_closing hobject)).1
      omega

theorem WrittenMembers.inOrder_objects (members : WrittenMembers) (start : Nat) :
    InOrder (members.objects start) := by
  match members with
  | .last _ _ _ value _ => exact value.inOrder_objects _
  | .cons key afterKey before value after next rest =>
    refine (value.inOrder_objects _).append (rest.inOrder_objects _)
      (start + 1 + key.closed.length + afterKey.chars.length + 1 + before.chars.length +
        value.text.length) ?_ ?_
    · intro object hobject
      exact (within_of_exists_closing (value.exists_closing hobject)).2
    · intro object hobject
      have hrest := (within_of_exists_closing (rest.exists_closing hobject)).1
      omega

end

/-! ## Repeated keys -/

/-- The key at the first place that repeats an earlier key. -/
def ObjectKeys.RepeatsFirst (object : ObjectKeys) (key : CodePoints) : Prop :=
  ∃ before after, object.keys = before ++ key :: after ∧ before.Nodup ∧ key ∈ before

/-- The first key repeated in the first object that repeats one. -/
def firstRepeat (objects : List ObjectKeys) : Option CodePoints :=
  objects.findSome? fun object => firstRepeated [] object.keys

section

variable {κ : Type} [DecidableEq κ] {seen keys : List κ}

theorem firstRepeated_eq_some_iff {key : κ} (hseen : seen.Nodup) :
    firstRepeated seen keys = some key ↔
      ∃ before after, keys = before ++ key :: after ∧ (seen.reverse ++ before).Nodup ∧
        key ∈ seen.reverse ++ before := by
  induction keys generalizing seen with
  | nil => simp [firstRepeated]
  | cons first rest ih =>
    by_cases hfirst : first ∈ seen
    · rw [firstRepeated, if_pos hfirst]
      constructor
      · intro h
        cases h
        refine ⟨[], rest, rfl, ?_, ?_⟩
        · simpa using hseen
        · simpa using hfirst
      · rintro ⟨before, after, hkeys, hnodup, -⟩
        cases before with
        | nil => rw [(List.cons.inj hkeys).1]
        | cons other before =>
          -- The first key cannot stand among keys that differ from those seen.
          obtain ⟨rfl, -⟩ := List.cons.inj hkeys
          have hapart := (List.nodup_append.mp hnodup).2.2
          exact absurd rfl (hapart first (List.mem_reverse.mpr hfirst) first List.mem_cons_self)
    · rw [firstRepeated, if_neg hfirst, ih (List.nodup_cons.mpr ⟨hfirst, hseen⟩)]
      constructor
      · rintro ⟨before, after, hrest, hnodup, hkey⟩
        refine ⟨first :: before, after, by rw [hrest, List.cons_append], ?_, ?_⟩
        · simpa using hnodup
        · simpa using hkey
      · rintro ⟨before, after, hkeys, hnodup, hkey⟩
        cases before with
        | nil =>
          obtain ⟨rfl, -⟩ := List.cons.inj hkeys
          rw [List.append_nil, List.mem_reverse] at hkey
          exact absurd hkey hfirst
        | cons other before =>
          obtain ⟨rfl, hrest⟩ := List.cons.inj hkeys
          refine ⟨before, after, hrest, ?_, ?_⟩
          · simpa using hnodup
          · simpa using hkey

theorem firstRepeated_eq_none_iff : firstRepeated seen keys = none ↔
    keys.Nodup ∧ ∀ key ∈ keys, key ∉ seen := by
  induction keys generalizing seen with
  | nil => simp [firstRepeated]
  | cons first rest ih =>
    by_cases hfirst : first ∈ seen
    · simp [firstRepeated, hfirst]
    · rw [firstRepeated, if_neg hfirst, ih]
      simp only [List.nodup_cons, List.mem_cons, forall_eq_or_imp, hfirst, not_false_eq_true,
        true_and, not_or]
      constructor
      · rintro ⟨hnodup, hrest⟩
        exact ⟨⟨fun hmem => (hrest first hmem).1 rfl, hnodup⟩, fun key hkey => (hrest key hkey).2⟩
      · rintro ⟨⟨hmem, hnodup⟩, hrest⟩
        exact ⟨hnodup, fun key hkey => ⟨ne_of_mem_of_not_mem hkey hmem, hrest key hkey⟩⟩

end

theorem ObjectKeys.firstRepeated_eq_some_iff {object : ObjectKeys} {key : CodePoints} :
    firstRepeated [] object.keys = some key ↔ object.RepeatsFirst key := by
  rw [Json.firstRepeated_eq_some_iff .nil]
  rfl

theorem ObjectKeys.firstRepeated_eq_none_iff {object : ObjectKeys} :
    firstRepeated [] object.keys = none ↔ object.keys.Nodup := by
  rw [Json.firstRepeated_eq_none_iff]
  simp

theorem ObjectKeys.RepeatsFirst.not_nodup {object : ObjectKeys} {key : CodePoints}
    (h : object.RepeatsFirst key) : ¬ object.keys.Nodup := by
  intro hnodup
  rw [← firstRepeated_eq_none_iff, firstRepeated_eq_some_iff.mpr h] at hnodup
  cases hnodup

theorem firstRepeat_eq_none_iff {objects : List ObjectKeys} : firstRepeat objects = none ↔
    ∀ object ∈ objects, object.keys.Nodup := by
  unfold firstRepeat
  simp only [List.findSome?_eq_none_iff, ObjectKeys.firstRepeated_eq_none_iff]

/-- Of objects in the order in which they close, the first repeated key is that of the one that
closes first among those that repeat a key. -/
theorem firstRepeat_eq_some_iff {objects : List ObjectKeys} {key : CodePoints}
    (horder : InOrder objects) : firstRepeat objects = some key ↔
      ∃ object ∈ objects, object.RepeatsFirst key ∧
        ∀ other ∈ objects, ¬ other.keys.Nodup → object.closing ≤ other.closing := by
  unfold firstRepeat
  rw [List.findSome?_eq_some_iff]
  simp only [ObjectKeys.firstRepeated_eq_some_iff, ObjectKeys.firstRepeated_eq_none_iff]
  constructor
  · rintro ⟨earlier, object, later, rfl, hkey, hearlier⟩
    refine ⟨object, by simp, hkey, ?_⟩
    intro other hother hrepeats
    rcases List.mem_append.mp hother with hmem | hmem
    · exact absurd (hearlier other hmem) hrepeats
    · rcases List.mem_cons.mp hmem with rfl | hmem
      · exact Nat.le_refl _
      · have hlater := (List.pairwise_append.mp horder).2.1
        exact Nat.le_of_lt (List.rel_of_pairwise_cons hlater hmem)
  · rintro ⟨object, hobject, hkey, hleast⟩
    obtain ⟨earlier, later, rfl⟩ := List.append_of_mem hobject
    refine ⟨earlier, object, later, rfl, hkey, ?_⟩
    intro other hother
    by_contra hrepeats
    have hlt := (List.pairwise_append.mp horder).2.2 other hother object List.mem_cons_self
    exact absurd (hleast other (by simp [hother]) hrepeats) (Nat.not_le.mpr hlt)

end DesignTokens.Json
