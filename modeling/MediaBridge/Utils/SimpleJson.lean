import Mathlib.Data.List.Basic
import Mathlib.Data.List.TakeWhile

set_option autoImplicit false

/-! # `utils::SimpleJson`: a lazy scanner over JSON text

`SimpleJson` does not parse its text. A value is a `JsonToken`, a span `[begin, end)` of the
text, and its type is guessed from the span's first characters (`assessType`). `find(path)`
walks the dot-separated path one property name at a time: `findProperty` reads the object's
members with `nextToken`, which skips spaces and dispatches on the next character to the
scanners `extractString`, `extractItem` (an object or an array, counting brackets and passing
over strings), `extractWord` and `extractNumber`.

Positions are offsets into the text, a list of characters; `*cursor` past the end reads the
terminator `'\x00'`. A null `JsonToken` is `JsonToken.null`; a token whose `begin` is a null
pointer is read as null by every function here, so that is the only null token modelled. Each
`for` and `while` loop of the source is a function on a fuel argument that bounds its
iterations: the distance from the cursor to the end, which every iteration shortens.

The getters copy the token's characters into a destination of fixed size with `strncpy` and
then write a terminator after them, without comparing the token's size with the destination's.
`getStringInto`, `getIntBuffer` and `getFloatBuffer` give what they write, from the
destination's first byte on.
-/

namespace MediaBridge.Utils

/-- `std::isspace` in the C locale. -/
def isspace (c : Char) : Bool :=
  c == ' ' || c == '\t' || c == '\n' || c == '\x0b' || c == '\x0c' || c == '\r'

/-- `*cursor`: the character at a position, the terminator `'\x00'` past the end. -/
def charAt (text : List Char) (i : Nat) : Char := text.getD i '\x00'

/-- A `JsonToken`: a span of the text, or the null token `JsonToken()`. -/
inductive JsonToken where
  | null
  | span (begin «end» : Nat)
  deriving DecidableEq, Repr

namespace JsonToken

variable (text : List Char)

/-- `isValid()`: both pointers set and `end > begin`. -/
def isValid : JsonToken → Bool
  | null => false
  | span b e => decide (b < e)

/-- `size()`. -/
def size : JsonToken → Nat
  | null => 0
  | span b e => if b < e then e - b else 0

/-- `*begin`, read only when `size() > 0`. -/
def first : JsonToken → Char
  | null => '\x00'
  | span b _ => charAt text b

/-- `std::strncmp(word, begin, word.length) == 0`: the token's text starts with `word`. -/
def startsWith (word : List Char) : JsonToken → Bool
  | null => false
  | span b _ => (text.drop b).take word.length == word

/-- `begin`, for a token that is not null. -/
def beginOr : JsonToken → Nat
  | null => 0
  | span b _ => b

/-- `JsonToken(t.end, e)`: from the end of `t` to `e`; null when `t` is. -/
def after : JsonToken → Nat → JsonToken
  | null, _ => null
  | span _ b, e => span b e

variable (t : JsonToken)

def isColon : Bool := t.size > 0 && t.first text == ':'

def isComma : Bool := t.size > 0 && t.first text == ','

def isString : Bool := t.size > 1 && t.first text == '"'

def isObject : Bool := t.size > 1 && t.first text == '\x7b'

def isArray : Bool := t.size > 1 && t.first text == '['

def isBoolean : Bool :=
  (t.size ≥ 4 && t.startsWith text ['t', 'r', 'u', 'e']) ||
    (t.size ≥ 5 && t.startsWith text ['f', 'a', 'l', 's', 'e'])

def isNull : Bool := t.size ≥ 4 && t.startsWith text ['n', 'u', 'l', 'l']

def isNumber : Bool := t.size > 0 && (t.first text == '-' || (t.first text).isDigit)

/-- The loop `while (begin != end && std::isspace(*begin)) ++begin`, `fuel` bounding it. -/
def skipSpace (cursor : Nat) : Nat → Nat
  | 0 => cursor
  | fuel + 1 => if isspace (charAt text cursor) then skipSpace (cursor + 1) fuel else cursor

/-- The loop `while (end > begin && std::isspace(*(end - 1))) --end`. -/
def trimEnd (begin : Nat) : Nat → Nat
  | 0 => 0
  | e + 1 => if begin < e + 1 && isspace (charAt text e) then trimEnd begin e else e + 1

/-- `trim()`: the spaces at both ends dropped. -/
def trim : JsonToken → JsonToken
  | null => null
  | span b e =>
      let b' := skipSpace text b (e - b)
      span b' (trimEnd text b' e)

end JsonToken

open JsonToken

/-! ## Reading the text

A lemma below states what a scanner does on a text that, from the cursor on, is a run of
characters of some kind followed by a character that ends the run. The text is given through
`text.drop cursor`, so that each step of a loop moves to the next `drop`. -/

section Reading

variable {text : List Char}

theorem charAt_of_drop {i : Nat} {c : Char} {l : List Char} (h : text.drop i = c :: l) :
    charAt text i = c := by
  have hget : text[i]? = some c := by rw [← List.head?_drop, h]; rfl
  simp [charAt, List.getD_eq_getElem?_getD, hget]

theorem drop_succ_of_drop {i : Nat} {c : Char} {l : List Char} (h : text.drop i = c :: l) :
    text.drop (i + 1) = l := by
  rw [← List.drop_drop, h]
  rfl

theorem drop_add_of_drop {i : Nat} {s l : List Char} (h : text.drop i = s ++ l) :
    text.drop (i + s.length) = l := by
  rw [← List.drop_drop, h, List.drop_left]

end Reading

/-- No space is a digit. -/
theorem isDigit_eq_false_of_isspace {c : Char} (h : isspace c = true) : c.isDigit = false := by
  simp only [isspace, Bool.or_eq_true, beq_iff_eq] at h
  rcases h with ((((h | h) | h) | h) | h) | h <;> subst h <;> decide

theorem ne_of_isDigit {c x : Char} (h : c.isDigit = true) (hx : x.isDigit = false) : c ≠ x := by
  rintro rfl
  rw [h] at hx
  exact Bool.noConfusion hx

theorem isspace_eq_false_of_isDigit {c : Char} (h : c.isDigit = true) : isspace c = false := by
  cases hs : isspace c with
  | false => rfl
  | true => rw [isDigit_eq_false_of_isspace hs] at h; exact Bool.noConfusion h

namespace JsonToken

variable {text : List Char}

/-- Over a character that is not a space, `skipSpace` stays. -/
theorem skipSpace_of_not_space {cursor : Nat} (h : isspace (charAt text cursor) = false)
    (fuel : Nat) : skipSpace text cursor fuel = cursor := by
  cases fuel with
  | zero => rfl
  | succ fuel => simp [skipSpace, h]

/-- Before a character that is not a space, `trimEnd` stays. -/
theorem trimEnd_of_not_space (begin : Nat) {e : Nat} (h : isspace (charAt text e) = false) :
    trimEnd text begin (e + 1) = e + 1 := by
  simp [trimEnd, h]

/-- A span with no space at either end is its own trim. -/
theorem trim_of_not_space {b e : Nat} (hlt : b < e) (hb : isspace (charAt text b) = false)
    (he : isspace (charAt text (e - 1)) = false) : (span b e).trim text = span b e := by
  obtain ⟨e', rfl⟩ : ∃ e', e = e' + 1 := ⟨e - 1, by omega⟩
  rw [Nat.add_sub_cancel] at he
  rw [trim, skipSpace_of_not_space hb, trimEnd_of_not_space b he]

end JsonToken

namespace Json

variable (text : List Char)

/-- The loop of `extractString` from `cursor`: a backslash is passed over like any other
character, and the string ends after the first `"`. -/
def stringLoop (begin : Nat) : (cursor fuel : Nat) → JsonToken
  | _, 0 => null
  | cursor, fuel + 1 =>
      if charAt text cursor == '\\' then stringLoop begin (cursor + 1) fuel
      else if charAt text cursor == '"' then span begin (cursor + 1)
      else stringLoop begin (cursor + 1) fuel

/-- `Json::extractString(item)`: from the opening `"` to after the closing one. -/
def extractString : JsonToken → JsonToken
  | null => null
  | span b e => if charAt text b != '"' then null else stringLoop text b (b + 1) (e - (b + 1))

/-- The loop of `extractItem<OPEN_CHAR, CLOSE_CHAR>` at bracket depth `level`: a string is
passed over whole, and the item ends after the bracket that closes the first one. -/
def itemLoop (openChar closeChar : Char) (begin «end» : Nat) :
    (level : Int) → (cursor fuel : Nat) → JsonToken
  | _, _, 0 => null
  | level, cursor, fuel + 1 =>
      if cursor = «end» then null
      else if charAt text cursor == openChar then
        itemLoop openChar closeChar begin «end» (level + 1) (cursor + 1) fuel
      else if charAt text cursor == closeChar then
        if level - 1 = 0 then span begin (cursor + 1)
        else itemLoop openChar closeChar begin «end» (level - 1) (cursor + 1) fuel
      else if charAt text cursor == '"' then
        match extractString text (span cursor «end») with
        | span b e =>
            if b < e then itemLoop openChar closeChar begin «end» level e fuel else null
        | null => null
      else itemLoop openChar closeChar begin «end» level (cursor + 1) fuel

/-- `Json::extractItem<OPEN_CHAR, CLOSE_CHAR>(item)`. -/
def extractItem (openChar closeChar : Char) : JsonToken → JsonToken
  | null => null
  | span b e =>
      if charAt text b != openChar then null
      else itemLoop text openChar closeChar b e 0 b (e - b)

/-- The loop of `extractWord`: the first `,`, closing brace or space. -/
def wordEnd (cursor : Nat) : (fuel : Nat) → Option Nat
  | 0 => none
  | fuel + 1 =>
      let c := charAt text cursor
      if c == ',' || c == '\x7d' || isspace c then some cursor else wordEnd (cursor + 1) fuel

/-- `Json::extractWord(item)`: up to the first `,`, closing brace or space, or all of it. -/
def extractWord : JsonToken → JsonToken
  | null => null
  | span b e =>
      match wordEnd text b (e - b) with
      | some c => span b c
      | none => span b e

/-- The loop of `extractNumber`: the first character that is not a digit, `-`, `.`, `e` or
`E`. -/
def numberEnd (cursor : Nat) : (fuel : Nat) → Option Nat
  | 0 => none
  | fuel + 1 =>
      let c := charAt text cursor
      if c == '-' || c == '.' || c == 'e' || c == 'E' then numberEnd (cursor + 1) fuel
      else if !c.isDigit then some cursor
      else numberEnd (cursor + 1) fuel

/-- `Json::extractNumber(item)`. -/
def extractNumber : JsonToken → JsonToken
  | null => null
  | span b e =>
      if charAt text b != '-' && !(charAt text b).isDigit then null
      else
        match numberEnd text b (e - b) with
        | some c => span b c
        | none => span b e

/-- `Json::nextToken(item)`: past the spaces, the token the next character starts. -/
def nextToken : JsonToken → JsonToken
  | null => null
  | span b e =>
      let cursor := skipSpace text b (e - b)
      if cursor = e then null
      else
        let c := charAt text cursor
        if c == '\x7b' then extractItem text '\x7b' '\x7d' (span cursor e)
        else if c == '[' then extractItem text '[' ']' (span cursor e)
        else if c == '"' then extractString text (span cursor e)
        else if c == 't' || c == 'f' || c == 'n' then extractWord text (span cursor e)
        else if c == ':' || c == ',' then span cursor (cursor + 1)
        else extractNumber text (span cursor e)

/-! ### Where the scanners stop -/

section Scanners

variable {text}

/-- **The end of a string.** Past a run with no quote in it, the string ends after the first
quote. A backslash in the run is passed over like any other character, and the character after
it is read as usual: a quote after a backslash ends the string. -/
theorem stringLoop_of_run (begin : Nat) {cursor fuel : Nat} {s rest : List Char}
    (h : text.drop cursor = s ++ '"' :: rest) (hs : '"' ∉ s) (hfuel : s.length < fuel) :
    stringLoop text begin cursor fuel = span begin (cursor + s.length + 1) := by
  induction s generalizing cursor fuel with
  | nil =>
      obtain ⟨fuel, rfl⟩ : ∃ f, fuel = f + 1 := ⟨fuel - 1, by simp at hfuel; omega⟩
      simp [stringLoop, charAt_of_drop h]
  | cons c s ih =>
      obtain ⟨fuel, rfl⟩ : ∃ f, fuel = f + 1 := ⟨fuel - 1, by simp at hfuel; omega⟩
      have hq : c ≠ '"' := fun hq => hs (hq ▸ List.mem_cons_self)
      have hrest : stringLoop text begin (cursor + 1) fuel =
          span begin (cursor + 1 + s.length + 1) :=
        ih (drop_succ_of_drop h) (fun hm => hs (List.mem_cons_of_mem c hm))
          (by simp at hfuel; omega)
      -- a backslash and any other character but a quote both move the cursor on by one
      by_cases hb : c = '\\'
      · simp [stringLoop, charAt_of_drop h, hb, hrest]
        omega
      · simp [stringLoop, charAt_of_drop h, hb, hq, hrest]
        omega

theorem extractString_of_run {b e : Nat} {s rest : List Char}
    (h : text.drop b = '"' :: (s ++ '"' :: rest)) (hs : '"' ∉ s) (he : b + s.length + 2 ≤ e) :
    extractString text (span b e) = span b (b + s.length + 2) := by
  have hrun := stringLoop_of_run b (drop_succ_of_drop h) hs (show s.length < e - (b + 1) by omega)
  simp only [extractString, charAt_of_drop h, bne_self_eq_false, Bool.false_eq_true, if_false,
    hrun]
  congr 1
  omega

/-- A quote after a backslash ends the string. -/
theorem extractString_escaped_quote {b e : Nat} {s rest : List Char}
    (h : text.drop b = '"' :: (s ++ '\\' :: '"' :: rest)) (hs : '"' ∉ s)
    (he : b + s.length + 3 ≤ e) : extractString text (span b e) = span b (b + s.length + 3) := by
  have hrun : text.drop b = '"' :: ((s ++ ['\\']) ++ '"' :: rest) := by simp [h]
  have hs' : '"' ∉ s ++ ['\\'] := by simp [hs]
  rw [extractString_of_run hrun hs' (by simp; omega)]
  simp only [List.length_append, List.length_singleton]
  congr 1

/-- A digit is none of the characters that `extractNumber` passes over besides digits. -/
theorem sign_eq_false_of_isDigit {c : Char} (h : c.isDigit = true) :
    (c == '-' || c == '.' || c == 'e' || c == 'E') = false := by
  simp [ne_of_isDigit h (show '-'.isDigit = false by decide),
    ne_of_isDigit h (show '.'.isDigit = false by decide),
    ne_of_isDigit h (show 'e'.isDigit = false by decide),
    ne_of_isDigit h (show 'E'.isDigit = false by decide)]

/-- **The end of a number.** Past a run of digits, the number ends at the first character that
cannot continue it. -/
theorem numberEnd_of_digits {cursor fuel : Nat} {ds rest : List Char} {d : Char}
    (h : text.drop cursor = ds ++ d :: rest) (hds : ∀ x ∈ ds, x.isDigit = true)
    (hd : (d == '-' || d == '.' || d == 'e' || d == 'E' || d.isDigit) = false)
    (hfuel : ds.length < fuel) : numberEnd text cursor fuel = some (cursor + ds.length) := by
  induction ds generalizing cursor fuel with
  | nil =>
      obtain ⟨fuel, rfl⟩ : ∃ f, fuel = f + 1 := ⟨fuel - 1, by simp at hfuel; omega⟩
      rw [Bool.or_eq_false_iff] at hd
      simp [numberEnd, charAt_of_drop h, hd.1, hd.2]
  | cons c ds ih =>
      obtain ⟨fuel, rfl⟩ : ∃ f, fuel = f + 1 := ⟨fuel - 1, by simp at hfuel; omega⟩
      have hc : c.isDigit = true := hds c List.mem_cons_self
      have hrest : numberEnd text (cursor + 1) fuel = some (cursor + 1 + ds.length) :=
        ih (drop_succ_of_drop h) (fun x hx => hds x (List.mem_cons_of_mem c hx))
          (by simp at hfuel; omega)
      have hlen : cursor + 1 + ds.length = cursor + (c :: ds).length := by
        simp only [List.length_cons]
        omega
      simp only [numberEnd, charAt_of_drop h, sign_eq_false_of_isDigit hc, hc, Bool.not_true,
        Bool.false_eq_true, if_false, hrest, hlen]

/-- At a character that is not a space, `nextToken` reads from there. -/
theorem nextToken_eq {c e : Nat} (hc : c < e) (hx : isspace (charAt text c) = false) :
    nextToken text (span c e) =
      if charAt text c == '\x7b' then extractItem text '\x7b' '\x7d' (span c e)
      else if charAt text c == '[' then extractItem text '[' ']' (span c e)
      else if charAt text c == '"' then extractString text (span c e)
      else if charAt text c == 't' || charAt text c == 'f' || charAt text c == 'n' then
        extractWord text (span c e)
      else if charAt text c == ':' || charAt text c == ',' then span c (c + 1)
      else extractNumber text (span c e) := by
  simp only [nextToken, skipSpace_of_not_space hx, if_neg (Nat.ne_of_lt hc)]

theorem nextToken_of_string {c e : Nat} {s rest : List Char}
    (h : text.drop c = '"' :: (s ++ '"' :: rest)) (hs : '"' ∉ s) (he : c + s.length + 2 ≤ e) :
    nextToken text (span c e) = span c (c + s.length + 2) := by
  rw [nextToken_eq (by omega) (by rw [charAt_of_drop h]; decide), charAt_of_drop h]
  simp only [show ('"' == '\x7b') = false by decide, show ('"' == '[') = false by decide,
    beq_self_eq_true, Bool.false_eq_true, if_false, if_true]
  exact extractString_of_run h hs he

theorem nextToken_of_punct {c e : Nat} {x : Char} {l : List Char} (h : text.drop c = x :: l)
    (hx : x = ':' ∨ x = ',') (hc : c < e) : nextToken text (span c e) = span c (c + 1) := by
  rcases hx with rfl | rfl
  · rw [nextToken_eq hc (by rw [charAt_of_drop h]; decide), charAt_of_drop h]
    simp
  · rw [nextToken_eq hc (by rw [charAt_of_drop h]; decide), charAt_of_drop h]
    simp

/-- At a digit, `nextToken` reads a number. -/
theorem nextToken_of_digits {c e : Nat} {ds rest : List Char} {d : Char}
    (h : text.drop c = ds ++ d :: rest) (hne : ds ≠ []) (hds : ∀ x ∈ ds, x.isDigit = true)
    (hd : (d == '-' || d == '.' || d == 'e' || d == 'E' || d.isDigit) = false)
    (he : c + ds.length < e) : nextToken text (span c e) = span c (c + ds.length) := by
  obtain ⟨x, xs, rfl⟩ := List.exists_cons_of_ne_nil hne
  have hx : x.isDigit = true := hds x List.mem_cons_self
  have hcx : charAt text c = x := charAt_of_drop h
  have hnum : numberEnd text c (e - c) = some (c + (x :: xs).length) :=
    numberEnd_of_digits h hds hd (by omega)
  rw [nextToken_eq (by omega) (by rw [hcx]; exact isspace_eq_false_of_isDigit hx), hcx]
  -- a digit starts none of the other tokens
  have hne : ∀ y : Char, y.isDigit = false → (x == y) = false :=
    fun y hy => beq_false_of_ne (ne_of_isDigit hx hy)
  simp only [hne '\x7b' (by decide), hne '[' (by decide), hne '"' (by decide), hne 't' (by decide),
    hne 'f' (by decide), hne 'n' (by decide), hne ':' (by decide), hne ',' (by decide),
    Bool.or_false, Bool.false_eq_true, if_false]
  simp only [extractNumber, hcx, hx, Bool.not_true, Bool.and_false, Bool.false_eq_true, if_false,
    hnum]

end Scanners

end Json

/-- `SimpleJson::Type`. -/
inductive JsonType where
  | none
  | boolean
  | null
  | string
  | integer
  | float
  | object
  | array
  deriving DecidableEq, Repr

/-- A `SimpleJson`: its token `_item` and its type `_type`. The path cache is not modelled. -/
structure SimpleJson where
  item : JsonToken
  type : JsonType
  deriving DecidableEq, Repr

namespace SimpleJson

open Json

variable (text : List Char)

/-- `SimpleJson::SimpleJsonNone`. -/
def simpleJsonNone : SimpleJson := ⟨null, .none⟩

/-- The loop of `assessType` over a number: a `.` before any `,` or space makes it a float. -/
def hasPoint (cursor : Nat) : (fuel : Nat) → Bool
  | 0 => false
  | fuel + 1 =>
      let c := charAt text cursor
      if c == '.' then true
      else if c == ',' || isspace c then false
      else hasPoint (cursor + 1) fuel

/-- The constructor `SimpleJson(begin, end)` with `assessType()`: the token trimmed, and the
type its first characters give. -/
def assessType (item : JsonToken) : SimpleJson :=
  let item := if item.isValid then item.trim text else item
  if !item.isValid || item.size = 0 then ⟨item, .none⟩
  else if item.isObject text then ⟨item, .object⟩
  else if item.isArray text then ⟨item, .array⟩
  else if item.isString text then ⟨item, .string⟩
  else if item.isBoolean text then ⟨item, .boolean⟩
  else if item.isNull text then ⟨item, .null⟩
  else if item.isNumber text then
    match item with
    | span b e => ⟨item, if hasPoint text b (e - b) then .float else .integer⟩
    | null => ⟨item, .integer⟩
  else ⟨item, .none⟩

/-- `SimpleJson::create(begin, end)`: `None` for a null or reversed span. -/
def create : JsonToken → SimpleJson
  | null => simpleJsonNone
  | span b e => if b > e then simpleJsonNone else assessType text (span b e)

/-- `SimpleJson::create(c_str, length)` over the whole text. -/
def createText : SimpleJson := create text (span 0 text.length)

/-- `StringTokenizer::tokenize(data, length, delimiter)`: past the leading delimiters, the
segment up to the next delimiter, and what follows that delimiter unless it ends the data.
`none` is the empty token. -/
def tokenize (data : List Char) (delimiter : Char) : Option (List Char × Option (List Char)) :=
  match data.dropWhile (· == delimiter) with
  | [] => none
  | start =>
      let segment := start.takeWhile (· != delimiter)
      match start.drop (segment.length + 1) with
      | [] => some (segment, none)
      | next => some (segment, some next)

/-- The loop of `findProperty` over the members of an object that ends at `itemEnd`: at each
member, its name, the colon and the value; the value if the name is `name`, otherwise on past
the comma. -/
def findPropertyLoop (itemEnd : Nat) (name : List Char) : (cursor fuel : Nat) → SimpleJson
  | _, 0 => simpleJsonNone
  | cursor, fuel + 1 =>
      if ¬ cursor < itemEnd then simpleJsonNone
      else
        match nextToken text (span cursor itemEnd) with
        | null => simpleJsonNone
        | span pb pe =>
            if !(span pb pe).isString text then simpleJsonNone
            else
              let propertyName := span (pb + 1) (pe - 1)
              let colon := nextToken text (span pe itemEnd)
              if !colon.isColon text then simpleJsonNone
              else
                let value := nextToken text (colon.after itemEnd)
                if propertyName.size = name.length && propertyName.startsWith text name then
                  create text value
                else
                  let delimiter := nextToken text (value.after itemEnd)
                  if !delimiter.isComma text then simpleJsonNone
                  else
                    match delimiter with
                    | span _ next => findPropertyLoop itemEnd name next fuel
                    | null => simpleJsonNone

/-- `findProperty(start, name, nameLen)` in this object. -/
def findProperty (j : SimpleJson) (start : Nat) (name : List Char) : SimpleJson :=
  match j.item with
  | null => simpleJsonNone
  | span _ itemEnd =>
      if name.length = 0 || (charAt text start != '"' && !isspace (charAt text start)) then
        simpleJsonNone
      else findPropertyLoop text itemEnd name start (itemEnd - start)

/-- `findInternal(path, ...)`: the first segment of the path in this object, then the rest of
the path in its value. Each call takes one segment, so `fuel` is the path's length. -/
def findInternal : (fuel : Nat) → SimpleJson → List Char → SimpleJson
  | 0, _, _ => simpleJsonNone
  | fuel + 1, j, path =>
      match tokenize path '.' with
      | none => simpleJsonNone
      | some (segment, next) =>
          if j.type != .object then simpleJsonNone
          else
            match j.item with
            | null => simpleJsonNone
            | span b _ =>
                let property := findProperty text j (b + 1) segment
                match next with
                | none => property
                | some rest =>
                    if property.type == .none then property
                    else if property.type == .object then findInternal fuel property rest
                    else simpleJsonNone

/-- `find(path)`, with the path cache missing (a fresh `SimpleJson`). -/
def find (j : SimpleJson) (path : List Char) : SimpleJson :=
  findInternal text (path.length + 1) j path

/-! ## Values the scanner recognises -/

section Values

variable {text}

theorem startsWith_eq_false {b e : Nat} {x y : Char} {l w : List Char} (h : text.drop b = x :: l)
    (hxy : x ≠ y) : (span b e).startsWith text (y :: w) = false := by
  simp [JsonToken.startsWith, h, hxy]

/-- No `.`, `,` or space within a run of digits, so it is not a float. -/
theorem hasPoint_of_digits {cursor : Nat} {ds rest : List Char} (h : text.drop cursor = ds ++ rest)
    (hds : ∀ x ∈ ds, x.isDigit = true) : hasPoint text cursor ds.length = false := by
  induction ds generalizing cursor with
  | nil => rfl
  | cons c ds ih =>
      have hc : c.isDigit = true := hds c List.mem_cons_self
      have hne : ∀ y : Char, y.isDigit = false → (c == y) = false :=
        fun y hy => beq_false_of_ne (ne_of_isDigit hc hy)
      simp only [List.length_cons, hasPoint, charAt_of_drop h, hne '.' (by decide),
        hne ',' (by decide), isspace_eq_false_of_isDigit hc, Bool.or_false, Bool.false_eq_true,
        if_false]
      exact ih (drop_succ_of_drop h) (fun x hx => hds x (List.mem_cons_of_mem c hx))

/-- The last character of a run that the text holds at `b`. -/
theorem charAt_last {b : Nat} {r rest : List Char} (h : text.drop b = r ++ rest) (hne : r ≠ []) :
    charAt text (b + r.length - 1) = r.getLast hne := by
  have hsplit : text.drop b = r.dropLast ++ (r.getLast hne :: rest) := by
    calc text.drop b = (r.dropLast ++ [r.getLast hne]) ++ rest := by
          rw [h, List.dropLast_append_getLast hne]
      _ = r.dropLast ++ (r.getLast hne :: rest) := by simp
  have hlen : b + r.dropLast.length = b + r.length - 1 := by
    rw [List.length_dropLast]
    have := List.length_pos_iff.mpr hne
    omega
  rw [← hlen]
  exact charAt_of_drop (drop_add_of_drop hsplit)

/-- The type `assessType` gives a span that is its own trim: the first test that its first
characters pass. -/
theorem create_eq {b e : Nat} (hlt : b < e) (htrim : (span b e).trim text = span b e) :
    create text (span b e) =
      if (span b e).isObject text then ⟨span b e, .object⟩
      else if (span b e).isArray text then ⟨span b e, .array⟩
      else if (span b e).isString text then ⟨span b e, .string⟩
      else if (span b e).isBoolean text then ⟨span b e, .boolean⟩
      else if (span b e).isNull text then ⟨span b e, .null⟩
      else if (span b e).isNumber text then
        ⟨span b e, if hasPoint text b (e - b) then .float else .integer⟩
      else ⟨span b e, .none⟩ := by
  have hsize : (span b e).size ≠ 0 := by
    simp only [JsonToken.size, if_pos hlt]
    omega
  simp only [create, if_neg (show ¬ e < b by omega), assessType, JsonToken.isValid,
    decide_eq_true hlt, if_true, htrim, Bool.not_true, Bool.false_or, hsize, decide_false,
    Bool.false_eq_true, if_false]

/-- **An integer.** A run of digits is an integer. -/
theorem create_digits {b : Nat} {ds rest : List Char} (h : text.drop b = ds ++ rest)
    (hne : ds ≠ []) (hds : ∀ x ∈ ds, x.isDigit = true) :
    create text (span b (b + ds.length)) = ⟨span b (b + ds.length), .integer⟩ := by
  have hlen := List.length_pos_iff.mpr hne
  obtain ⟨x, xs, hxs⟩ := List.exists_cons_of_ne_nil hne
  have hx : x.isDigit = true := hds x (hxs ▸ List.mem_cons_self)
  have hdrop : text.drop b = x :: (xs ++ rest) := by rw [h, hxs]; rfl
  have hcx : charAt text b = x := charAt_of_drop hdrop
  have hlast : isspace (charAt text (b + ds.length - 1)) = false := by
    rw [charAt_last h hne]
    exact isspace_eq_false_of_isDigit (hds _ (List.getLast_mem hne))
  have htrim : (span b (b + ds.length)).trim text = span b (b + ds.length) :=
    trim_of_not_space (by omega) (by rw [hcx]; exact isspace_eq_false_of_isDigit hx) hlast
  have hne' : ∀ y : Char, y.isDigit = false → (x == y) = false :=
    fun y hy => beq_false_of_ne (ne_of_isDigit hx hy)
  rw [create_eq (by omega) htrim, Nat.add_sub_cancel_left, hasPoint_of_digits h hds]
  -- the first character is a digit: not an object, array, string, boolean or null
  simp only [isObject, isArray, isString, isBoolean, isNull, isNumber, first, hcx,
    hne' '\x7b' (by decide), hne' '[' (by decide), hne' '"' (by decide), hne' '-' (by decide),
    startsWith_eq_false hdrop (ne_of_isDigit hx (show 't'.isDigit = false by decide)),
    startsWith_eq_false hdrop (ne_of_isDigit hx (show 'f'.isDigit = false by decide)),
    startsWith_eq_false hdrop (ne_of_isDigit hx (show 'n'.isDigit = false by decide)), hx]
  simp [JsonToken.size, hlen]

/-- **A string.** A span from a quote to a quote is a string. -/
theorem create_string {b : Nat} {s rest : List Char} (h : text.drop b = '"' :: (s ++ '"' :: rest)) :
    create text (span b (b + s.length + 2)) = ⟨span b (b + s.length + 2), .string⟩ := by
  have hfirst : charAt text b = '"' := charAt_of_drop h
  have hlast : charAt text (b + s.length + 2 - 1) = '"' := by
    have hq := charAt_of_drop (drop_add_of_drop (s := '"' :: s) (l := '"' :: rest) h)
    rw [List.length_cons] at hq
    rw [show b + s.length + 2 - 1 = b + (s.length + 1) by omega]
    exact hq
  have htrim : (span b (b + s.length + 2)).trim text = span b (b + s.length + 2) :=
    trim_of_not_space (by omega) (by rw [hfirst]; decide) (by rw [hlast]; decide)
  rw [create_eq (by omega) htrim]
  simp [isObject, isArray, isString, JsonToken.size, first, hfirst,
    show b < b + s.length + 2 by omega, show b + s.length + 2 - b = s.length + 2 by omega]

/-- **An object.** A span from an opening brace to a closing one is an object. -/
theorem create_object {b e : Nat} (hlt : b + 1 < e) (hb : charAt text b = '\x7b')
    (he : charAt text (e - 1) = '\x7d') : create text (span b e) = ⟨span b e, .object⟩ := by
  have htrim : (span b e).trim text = span b e :=
    trim_of_not_space (by omega) (by rw [hb]; decide) (by rw [he]; decide)
  rw [create_eq (by omega) htrim]
  simp [isObject, JsonToken.size, first, hb, show b < e by omega, show 1 < e - b by omega]

/-- A path with no dot is one segment. -/
theorem tokenize_of_not_mem {data : List Char} {delimiter : Char} (hne : data ≠ [])
    (h : delimiter ∉ data) : tokenize data delimiter = some (data, none) := by
  have hdrop : data.dropWhile (· == delimiter) = data := by
    rw [List.dropWhile_eq_self_iff]
    intro hl heq
    exact h (by simpa using (beq_iff_eq.mp heq) ▸ List.getElem_mem hl)
  have htake : data.takeWhile (· != delimiter) = data := by
    rw [List.takeWhile_eq_self_iff]
    intro x hx
    simpa using fun heq : x = delimiter => h (heq ▸ hx)
  obtain ⟨x, xs, rfl⟩ := List.exists_cons_of_ne_nil hne
  simp only [tokenize, hdrop, htake]
  rw [List.drop_eq_nil_of_le (by simp)]

/-- **The member found.** At a member named `name`, the loop of `findProperty` returns the
value after the colon. -/
theorem findPropertyLoop_of_name {itemEnd cursor fuel : Nat} {name rest : List Char}
    (h : text.drop cursor = '"' :: (name ++ '"' :: ':' :: rest)) (hq : '"' ∉ name)
    (hend : cursor + name.length + 3 < itemEnd) :
    findPropertyLoop text itemEnd name cursor (fuel + 1) =
      create text (nextToken text (span (cursor + name.length + 3) itemEnd)) := by
  have hname : nextToken text (span cursor itemEnd) = span cursor (cursor + name.length + 2) :=
    nextToken_of_string h hq (by omega)
  have hcolonDrop : text.drop (cursor + name.length + 2) = ':' :: rest := by
    have hd : text.drop (cursor + ('"' :: (name ++ ['"'])).length) = ':' :: rest :=
      drop_add_of_drop (by simp [h])
    simpa [Nat.add_assoc] using hd
  have hcolon : nextToken text (span (cursor + name.length + 2) itemEnd) =
      span (cursor + name.length + 2) (cursor + name.length + 3) :=
    nextToken_of_punct hcolonDrop (.inl rfl) (by omega)
  have hstring : (span cursor (cursor + name.length + 2)).isString text = true := by
    simp [isString, JsonToken.size, first, charAt_of_drop h,
      show cursor < cursor + name.length + 2 by omega]
    omega
  have hisColon : (span (cursor + name.length + 2) (cursor + name.length + 3)).isColon text =
      true := by
    simp [isColon, JsonToken.size, first, charAt_of_drop hcolonDrop]
  -- the name between the quotes is `name`
  have hsize : (span (cursor + 1) (cursor + name.length + 2 - 1)).size = name.length := by
    simp only [JsonToken.size]
    split <;> omega
  have hstarts : (span (cursor + 1) (cursor + name.length + 2 - 1)).startsWith text name = true := by
    simp [JsonToken.startsWith, drop_succ_of_drop h]
  simp only [findPropertyLoop, if_neg (show ¬ ¬ cursor < itemEnd by omega), hname, hstring,
    Bool.not_true, Bool.false_eq_true, if_false, hcolon, hisColon, JsonToken.after, hsize,
    hstarts, decide_true, Bool.true_and, if_true]

/-- **A property of a one-member object.** In `{"key":value}`, `find(key)` is the value that
`nextToken` reads after the colon. -/
theorem find_single_member {key value : List Char}
    (htext : text = '\x7b' :: '"' :: (key ++ '"' :: ':' :: (value ++ ['\x7d'])))
    (hkey : key ≠ []) (hq : '"' ∉ key) (hdot : '.' ∉ key) :
    find text (createText text) key =
      create text (nextToken text (span (key.length + 4) text.length)) := by
  have hlen : text.length = key.length + value.length + 5 := by
    rw [htext]
    simp
    omega
  have htextne : text ≠ [] := by rw [htext]; exact List.cons_ne_nil _ _
  have hfirst : charAt text 0 = '\x7b' := charAt_of_drop (by rw [htext]; rfl)
  have hlast : charAt text (text.length - 1) = '\x7d' := by
    have hl : charAt text (0 + text.length - 1) = text.getLast htextne :=
      charAt_last (show text.drop 0 = text ++ [] by simp) htextne
    rw [Nat.zero_add] at hl
    rw [hl]
    simp [htext]
  have hobject : createText text = ⟨span 0 text.length, .object⟩ :=
    create_object (by omega) hfirst hlast
  have hquote : charAt text 1 = '"' := charAt_of_drop (by rw [htext]; rfl)
  have hmember : findPropertyLoop text text.length key 1 (key.length + value.length + 3 + 1) =
      create text (nextToken text (span (1 + key.length + 3) text.length)) :=
    findPropertyLoop_of_name (by rw [htext]; rfl) hq (by omega)
  rw [find, findInternal, tokenize_of_not_mem hkey hdot]
  simp only [hobject, bne_self_eq_false, Bool.false_eq_true, if_false]
  simp only [findProperty, show key.length ≠ 0 from fun h0 => hkey (List.eq_nil_of_length_eq_zero h0),
    hquote, decide_false, Bool.false_or, bne_self_eq_false, Bool.false_and, Bool.false_eq_true,
    if_false, show text.length - 1 = key.length + value.length + 3 + 1 by omega, hmember]
  congr 3
  omega

/-- The number of `{"key":digits}` is an integer over the digits. -/
theorem find_single_digits {key ds : List Char}
    (htext : text = '\x7b' :: '"' :: (key ++ '"' :: ':' :: (ds ++ ['\x7d'])))
    (hkey : key ≠ []) (hq : '"' ∉ key) (hdot : '.' ∉ key) (hne : ds ≠ [])
    (hds : ∀ x ∈ ds, x.isDigit = true) :
    find text (createText text) key =
      ⟨span (key.length + 4) (key.length + 4 + ds.length), .integer⟩ := by
  have hlen : text.length = key.length + ds.length + 5 := by
    rw [htext]
    simp
    omega
  have hvalue : text.drop (key.length + 4) = ds ++ ['\x7d'] := by
    rw [htext]
    simp [List.drop_append]
  rw [find_single_member htext hkey hq hdot,
    nextToken_of_digits hvalue hne hds (by decide) (by omega)]
  exact create_digits hvalue hne hds

/-- In `{"a":"x\"y","b":1}` the string of `a` ends at its escaped quote, so that `find("a")` is
`"x\"` and `find("b")` meets `y` where it looks for a comma, and finds nothing. -/
theorem find_stops_at_escaped_quote :
    (find "\x7b\"a\":\"x\\\"y\",\"b\":1\x7d".toList
        (createText "\x7b\"a\":\"x\\\"y\",\"b\":1\x7d".toList) "a".toList).item = span 5 9 ∧
      (find "\x7b\"a\":\"x\\\"y\",\"b\":1\x7d".toList
        (createText "\x7b\"a\":\"x\\\"y\",\"b\":1\x7d".toList) "b".toList).type = .none := by
  decide

end Values

/-! ## Copies out of the text -/

/-- `std::strncpy(destination, text + source, n)`: the `n` bytes it writes, the source's up to
its terminator and zeros after. -/
def strncpy (source n : Nat) : List Char :=
  ((text.drop source).takeWhile (· != '\x00') ++ List.replicate n '\x00').take n

variable (j : SimpleJson)

/-- `getString<N>(target)`: whether the value is a string, and the bytes written from
`target[0]` on: `size() - 2` by `strncpy`, then the terminator at `target[size() - 2]`. -/
def getStringInto : Bool × List Char :=
  if j.type == .string then (true, strncpy text (j.item.beginOr + 1) (j.item.size - 2) ++ ['\x00'])
  else (false, ['\x00'])

/-- The bytes `getInt()` and `getInt<T>(defaultValue)` write into their 33-byte `_buffer`
before `sscanf` reads it: `size()` by `strncpy`, then the terminator at `_buffer[size()]`;
nothing when the value is not an integer. -/
def getIntBuffer : List Char :=
  if j.type == .integer then strncpy text j.item.beginOr j.item.size ++ ['\x00'] else []

/-- The bytes `getFloat()` writes into its 33-byte `_buffer`, as `getIntBuffer` for a float. -/
def getFloatBuffer : List Char :=
  if j.type == .float then strncpy text j.item.beginOr j.item.size ++ ['\x00'] else []

/-- `strcmp(s) == 0`: the string's length, `size() - 2` taken as an `int`, is that of `s`, and
its characters are those of `s`. -/
def strcmpEq (s : List Char) : Bool :=
  ((j.item.size : Int) - 2 == (s.length : Int)) &&
    (text.drop (j.item.beginOr + 1)).take s.length == s

/-- `exists(path)`. -/
def «exists» (path : List Char) : Bool := (find text j path).type != .none

/-- `strncpy` writes exactly `n` bytes. -/
@[simp] theorem length_strncpy (source n : Nat) : (strncpy text source n).length = n := by
  simp [strncpy]

/-- What `getString<N>` writes: two bytes fewer than the token, and the terminator. -/
theorem length_getStringInto {j : SimpleJson} (h : j.type = .string) :
    (getStringInto text j).2.length = j.item.size - 2 + 1 := by
  simp [getStringInto, h]

/-- What `getInt` writes: the token, and the terminator. -/
theorem length_getIntBuffer {j : SimpleJson} (h : j.type = .integer) :
    (getIntBuffer text j).length = j.item.size + 1 := by
  simp [getIntBuffer, h]

/-! ## Arrays -/

/-- A `SimpleJsonArray`: the trimmed span between the brackets, or the null array. -/
structure SimpleJsonArray where
  item : JsonToken
  deriving DecidableEq, Repr

/-- `getArray()`. -/
def getArray : SimpleJsonArray :=
  if j.type != .array || charAt text j.item.beginOr != '[' then ⟨null⟩
  else
    match extractItem text '[' ']' j.item with
    | span b e => if 2 ≤ e - b then ⟨(span (b + 1) (e - 1)).trim text⟩ else ⟨null⟩
    | null => ⟨null⟩

/-- A `SimpleJsonArray::IterBase` of an array that is not null: `_pos`, `_arrayEnd` and
`_element`. -/
structure IterBase where
  pos : Nat
  arrayEnd : Nat
  element : SimpleJson

/-- The constructor `IterBase(start, arrayEnd)`: the first element, or the end iterator when
there is none. -/
def IterBase.start (start arrayEnd : Nat) : IterBase :=
  if start = arrayEnd then ⟨start, arrayEnd, ⟨null, .none⟩⟩
  else
    let token := nextToken text (span start arrayEnd)
    let element := create text token
    if element.type == .none then ⟨arrayEnd, arrayEnd, element⟩
    else ⟨token.beginOr, arrayEnd, element⟩

/-- `operator++()`: past the element and the comma after it, the next element. -/
def IterBase.next (it : IterBase) : IterBase :=
  if it.pos = it.arrayEnd then it
  else
    let token := nextToken text (span (it.pos + it.element.item.size) it.arrayEnd)
    let token := if token.isComma text then nextToken text (token.after it.arrayEnd) else token
    let token := token.trim text
    let element := create text token
    if element.type == .none then ⟨it.arrayEnd, it.arrayEnd, element⟩
    else ⟨token.beginOr, it.arrayEnd, element⟩

/-- The elements an iterator visits before it reaches the end. -/
def IterBase.elements : IterBase → (fuel : Nat) → List SimpleJson
  | _, 0 => []
  | it, fuel + 1 =>
      if it.pos = it.arrayEnd then [] else it.element :: (it.next text).elements fuel

/-- A range-`for` over the array: the elements from `begin()` to `end()`. -/
def SimpleJsonArray.elements (a : SimpleJsonArray) : List SimpleJson :=
  match a.item with
  | null => []
  | span b e => (IterBase.start text b e).elements text (e - b)

/-- `front()`: the element of `begin()`. -/
def SimpleJsonArray.front (a : SimpleJsonArray) : SimpleJson :=
  match a.item with
  | null => ⟨null, .none⟩
  | span b e => (IterBase.start text b e).element

end SimpleJson

end MediaBridge.Utils
