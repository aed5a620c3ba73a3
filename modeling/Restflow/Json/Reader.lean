import Restflow.Json.Encoder

/-!
# Reading JSON back

A reader for RFC 8259 texts, lenient about `NaN`, `Infinity` and `-Infinity` as
`json.loads` is; it reads back every layout `render` writes of a document whose number
tokens it takes (`readJson_render`).
-/

namespace Restflow

open Python

def isWs (c : Char) : Bool := c == ' ' || c == '\t' || c == '\n' || c == '\r'

def skipWs : List Char → List Char
  | c :: cs => if isWs c then skipWs cs else c :: cs
  | [] => []

def hexVal (c : Char) : Option Nat :=
  if c.isDigit then some (c.toNat - 48)
  else if 97 ≤ c.toNat ∧ c.toNat ≤ 102 then some (c.toNat - 87)
  else if 65 ≤ c.toNat ∧ c.toNat ≤ 70 then some (c.toNat - 55)
  else none

def hex4Val (a b c d : Char) : Option Nat := do
  let a ← hexVal a
  let b ← hexVal b
  let c ← hexVal c
  let d ← hexVal d
  pure (4096 * a + 256 * b + 16 * c + d)

def escapeVal : Char → Option Char
  | '"' => some '"'
  | '\\' => some '\\'
  | '/' => some '/'
  | 'b' => some '\x08'
  | 'f' => some '\x0c'
  | 'n' => some '\n'
  | 'r' => some '\r'
  | 't' => some '\t'
  | _ => none

def consUnit (n : Nat) : Option (List Nat × List Char) → Option (List Nat × List Char) :=
  Option.map fun p => (n :: p.1, p.2)

/-- The UTF-16 code units of a string body up to its closing quote, and what follows
it: an escape gives the unit it stands for, any other character its code point. -/
def readUnits : List Char → Option (List Nat × List Char)
  | [] => none
  | c :: rest =>
    if c = '"' then some ([], rest)
    else if c = '\\' then
      match rest with
      | e :: tl =>
        if e = 'u' then
          match tl with
          | a :: b :: c :: d :: tl => (hex4Val a b c d).bind fun n => consUnit n (readUnits tl)
          | _ => none
        else (escapeVal e).bind fun c => consUnit c.toNat (readUnits tl)
      | [] => none
    else if c.toNat < 0x20 then none
    else consUnit c.toNat (readUnits rest)

/-- Code units to characters: a high surrogate then a low one make one character, and a
lone surrogate is refused. -/
def decodeUnits : List Nat → Option (List Char)
  | [] => some []
  | n :: rest =>
    if n < 0xD800 ∨ 0xDFFF < n then (decodeUnits rest).map (Char.ofNat n :: ·)
    else if n < 0xDC00 then
      match rest with
      | m :: rest =>
        if 0xDC00 ≤ m ∧ m ≤ 0xDFFF then
          (decodeUnits rest).map (Char.ofNat (0x10000 + (n - 0xD800) * 0x400 + (m - 0xDC00)) :: ·)
        else none
      | [] => none
    else none

def readChars (cs : List Char) : Option (List Char × List Char) :=
  (readUnits cs).bind fun p => (decodeUnits p.1).map (·, p.2)

def isNumChar (c : Char) : Bool :=
  c.isDigit || c == '-' || c == '+' || c == '.' || c == 'e' || c == 'E'

/-- The tokens `json.loads` takes for the floats RFC 8259 has no number for. -/
def nonFinite : List String := ["NaN", "Infinity", "-Infinity"]

def readNonFinite : List Char → Option (JsonValue × List Char)
  | 'N' :: 'a' :: 'N' :: rest => some (.number "NaN", rest)
  | 'I' :: 'n' :: 'f' :: 'i' :: 'n' :: 'i' :: 't' :: 'y' :: rest => some (.number "Infinity", rest)
  | '-' :: 'I' :: 'n' :: 'f' :: 'i' :: 'n' :: 'i' :: 't' :: 'y' :: rest =>
    some (.number "-Infinity", rest)
  | _ => none

def readNumber (lenient : Bool) (cs : List Char) : Option (JsonValue × List Char) :=
  if isNumber (cs.takeWhile isNumChar) then
    some (.number (String.mk (cs.takeWhile isNumChar)), cs.dropWhile isNumChar)
  else if lenient then readNonFinite cs else none

def readLiteral (lenient : Bool) (cs : List Char) : Option (JsonValue × List Char) :=
  if "null".toList.isPrefixOf cs then some (.null, cs.drop 4)
  else if "true".toList.isPrefixOf cs then some (.bool true, cs.drop 4)
  else if "false".toList.isPrefixOf cs then some (.bool false, cs.drop 5)
  else readNumber lenient cs

mutual
def readValue (lenient : Bool) : Nat → List Char → Option (JsonValue × List Char)
  | 0, _ => none
  | fuel + 1, cs =>
    match skipWs cs with
    | '"' :: rest => (readChars rest).map fun p => (.string (String.mk p.1), p.2)
    | '[' :: rest =>
      match skipWs rest with
      | ']' :: rest => some (.array [], rest)
      | _ => do
        let p ← readValue lenient fuel rest
        let q ← readElems lenient fuel p.2
        pure (.array (p.1 :: q.1), q.2)
    | '{' :: rest =>
      match skipWs rest with
      | '}' :: rest => some (.object [], rest)
      | _ => do
        let p ← readMember lenient fuel rest
        let q ← readMembers lenient fuel p.2
        pure (.object (p.1 :: q.1), q.2)
    | cs => readLiteral lenient cs
def readElems (lenient : Bool) : Nat → List Char → Option (List JsonValue × List Char)
  | 0, _ => none
  | fuel + 1, cs =>
    match skipWs cs with
    | ']' :: rest => some ([], rest)
    | ',' :: rest => do
      let p ← readValue lenient fuel rest
      let q ← readElems lenient fuel p.2
      pure (p.1 :: q.1, q.2)
    | _ => none
def readMember (lenient : Bool) : Nat → List Char → Option ((String × JsonValue) × List Char)
  | 0, _ => none
  | fuel + 1, cs =>
    match skipWs cs with
    | '"' :: rest => do
      let k ← readChars rest
      match skipWs k.2 with
      | ':' :: rest => do
        let p ← readValue lenient fuel rest
        pure ((String.mk k.1, p.1), p.2)
      | _ => none
    | _ => none
def readMembers (lenient : Bool) : Nat → List Char →
    Option (List (String × JsonValue) × List Char)
  | 0, _ => none
  | fuel + 1, cs =>
    match skipWs cs with
    | '}' :: rest => some ([], rest)
    | ',' :: rest => do
      let p ← readMember lenient fuel rest
      let q ← readMembers lenient fuel p.2
      pure (p.1 :: q.1, q.2)
    | _ => none
end

def readJson (lenient : Bool) (s : String) : Option JsonValue :=
  match readValue lenient (s.length + 1) s.toList with
  | some (j, r) => if skipWs r = [] then some j else none
  | none => none

def numberOk (lenient : Bool) (t : String) : Bool :=
  isNumber t.toList || (lenient && nonFinite.contains t)

/-- What may follow a number token: nothing that continues it. -/
def NoNumHead (r : List Char) : Prop := ∀ c cs, r = c :: cs → isNumChar c = false

def StartsValue (cs : List Char) : Prop := ∃ c t, cs = c :: t ∧ isWs c = false ∧ c ≠ ']' ∧ c ≠ '}'

mutual
def JsonValue.numbersOk (lenient : Bool) : JsonValue → Bool
  | .number t => numberOk lenient t
  | .array vs => JsonValue.numbersOkList lenient vs
  | .object ms => JsonValue.numbersOkMembers lenient ms
  | _ => true
def JsonValue.numbersOkList (lenient : Bool) : List JsonValue → Bool
  | [] => true
  | v :: vs => v.numbersOk lenient && JsonValue.numbersOkList lenient vs
def JsonValue.numbersOkMembers (lenient : Bool) : List (String × JsonValue) → Bool
  | [] => true
  | (_, v) :: ms => v.numbersOk lenient && JsonValue.numbersOkMembers lenient ms
end

mutual
/-- The fuel the reader needs for a document. -/
def JsonValue.size : JsonValue → Nat
  | .array (v :: vs) => 1 + v.size + JsonValue.sizeElems vs
  | .object ((_, v) :: ms) => 2 + v.size + JsonValue.sizeMembers ms
  | _ => 1
def JsonValue.sizeElems : List JsonValue → Nat
  | [] => 1
  | v :: vs => 1 + v.size + JsonValue.sizeElems vs
def JsonValue.sizeMembers : List (String × JsonValue) → Nat
  | [] => 1
  | (_, v) :: ms => 2 + v.size + JsonValue.sizeMembers ms
end

theorem nibble_eq (n : Nat) : n &&& 0xf = n % 16 := Nat.and_pow_two_sub_one_eq_mod n 4

theorem hexVal_hexDigit : ∀ d, d < 16 → hexVal (hexDigit d) = some d := by decide

theorem hex4Val_hex4 {n : Nat} (h : n < 0x10000) (rest : List Char) :
    ∃ a b c d, hex4 n ++ rest = a :: b :: c :: d :: rest ∧ hex4Val a b c d = some n := by
  refine ⟨_, _, _, _, rfl, ?_⟩
  simp only [nibble_eq, Nat.shiftRight_eq_div_pow, Nat.reducePow, hex4Val, hexVal_hexDigit _ (Nat.mod_lt _ (by decide : 16 > 0)),
    Option.bind_eq_bind, Option.some_bind]
  exact congrArg some (by omega)

theorem shiftRight_ten (n : Nat) : n >>> 10 = n / 1024 := Nat.shiftRight_eq_div_pow n 10

theorem and_3ff (n : Nat) : n &&& 0x3FF = n % 1024 := Nat.and_pow_two_sub_one_eq_mod n 10

theorem readUnits_quote (rest : List Char) : readUnits ('"' :: rest) = some ([], rest) := by
  rw [readUnits.eq_def]
  simp only [if_pos]

theorem readUnits_plain {c : Char} (h₁ : c ≠ '"') (h₂ : c ≠ '\\') (h₃ : ¬c.toNat < 0x20)
    (rest : List Char) : readUnits (c :: rest) = consUnit c.toNat (readUnits rest) := by
  rw [readUnits.eq_def]
  simp only [if_neg h₁, if_neg h₂, if_neg h₃]

theorem readUnits_escape {c e : Char} (he : escapeVal e = some c) (hu : e ≠ 'u') (rest : List Char) :
    readUnits ('\\' :: e :: rest) = consUnit c.toNat (readUnits rest) := by
  rw [readUnits.eq_def]
  simp only [if_neg (show '\\' ≠ '"' by decide), if_pos, if_neg hu, he]
  rfl

theorem readUnits_u {a b c d : Char} {n : Nat} (h : hex4Val a b c d = some n) (rest : List Char) :
    readUnits ('\\' :: 'u' :: a :: b :: c :: d :: rest) = consUnit n (readUnits rest) := by
  rw [readUnits.eq_def]
  simp only [if_neg (show '\\' ≠ '"' by decide), if_pos, h]
  rfl

def utf16 (c : Char) : List Nat :=
  if c.toNat < 0x10000 then [c.toNat]
  else [0xD800 + (c.toNat - 0x10000) / 0x400, 0xDC00 + (c.toNat - 0x10000) % 0x400]

theorem readUnits_escapeChar (c : Char) (rest : List Char) :
    readUnits (escapeChar c ++ rest) = (readUnits rest).map fun p => (utf16 c ++ p.1, p.2) := by
  unfold escapeChar
  split
  case isTrue h =>
    simp only [sChar, Bool.and_eq_true, decide_eq_true_eq, bne_iff_ne, ne_eq] at h
    obtain ⟨⟨⟨h₁, h₄⟩, h₂⟩, h₃⟩ := h
    rw [List.singleton_append, readUnits_plain h₃ h₂ (Nat.not_lt.mpr h₁), utf16, if_pos (by omega)]
    rfl
  unfold asciiEscapeUnichar
  split
  case h_8 =>
    have hv : c.toNat < 0xD800 ∨ (0xDFFF < c.toNat ∧ c.toNat < 0x110000) := c.valid
    split
    case isTrue hc =>
      obtain ⟨e, f, g, k, h', hm⟩ := hex4Val_hex4 (n := 0xDC00 + (c.toNat &&& 0x3FF))
        (by rw [and_3ff]; omega) rest
      obtain ⟨a, b, c', d, h, hn⟩ := hex4Val_hex4 (n := 0xD800 - (0x10000 >>> 10) + (c.toNat >>> 10))
        (by simp only [shiftRight_ten]; omega) ('\\' :: 'u' :: e :: f :: g :: k :: rest)
      simp only [List.cons_append, List.append_assoc, h', h]
      have hH : 0xD800 - (0x10000 >>> 10) + (c.toNat >>> 10) = 0xD800 + (c.toNat - 0x10000) / 0x400 := by
        simp only [shiftRight_ten]; omega
      have hL : 0xDC00 + (c.toNat &&& 0x3FF) = 0xDC00 + (c.toNat - 0x10000) % 0x400 := by
        rw [and_3ff]; omega
      rw [readUnits_u hn, readUnits_u hm, utf16, if_neg (by omega), hH, hL]
      cases readUnits rest <;> rfl
    case isFalse hc =>
      obtain ⟨a, b, c', d, h, hn⟩ := hex4Val_hex4 (n := c.toNat) (by omega) rest
      simp only [List.cons_append, h]
      rw [readUnits_u hn, utf16, if_pos (by omega)]
      rfl
  all_goals exact readUnits_escape (by rfl) (by decide) rest

theorem readUnits_encode (cs r : List Char) :
    readUnits (cs.flatMap escapeChar ++ '"' :: r) = some (cs.flatMap utf16, r) := by
  induction cs with
  | nil => exact readUnits_quote r
  | cons c cs ih => rw [List.flatMap_cons, List.append_assoc, readUnits_escapeChar, ih]; rfl

theorem decodeUnits_utf16 (c : Char) (us : List Nat) :
    decodeUnits (utf16 c ++ us) = (decodeUnits us).map (c :: ·) := by
  have hv : c.toNat < 0xD800 ∨ (0xDFFF < c.toNat ∧ c.toNat < 0x110000) := c.valid
  unfold utf16
  split
  case isTrue hc =>
    rw [List.singleton_append, decodeUnits.eq_def]
    simp only [if_pos (show c.toNat < 0xD800 ∨ 0xDFFF < c.toNat by omega), Char.ofNat_toNat]
  case isFalse hc =>
    have hcode : 0x10000 + (0xD800 + (c.toNat - 0x10000) / 0x400 - 0xD800) * 0x400 +
        (0xDC00 + (c.toNat - 0x10000) % 0x400 - 0xDC00) = c.toNat := by omega
    rw [List.cons_append, List.singleton_append, decodeUnits.eq_def]
    simp only [if_neg (show ¬(0xD800 + (c.toNat - 0x10000) / 0x400 < 0xD800 ∨
        0xDFFF < 0xD800 + (c.toNat - 0x10000) / 0x400) by omega),
      if_pos (show 0xD800 + (c.toNat - 0x10000) / 0x400 < 0xDC00 by omega),
      if_pos (show 0xDC00 ≤ 0xDC00 + (c.toNat - 0x10000) % 0x400 ∧
        0xDC00 + (c.toNat - 0x10000) % 0x400 ≤ 0xDFFF by omega), hcode, Char.ofNat_toNat]

theorem decodeUnits_flatMap (cs : List Char) : decodeUnits (cs.flatMap utf16) = some cs := by
  induction cs with
  | nil => rfl
  | cons c cs ih => rw [List.flatMap_cons, decodeUnits_utf16, ih]; rfl

theorem readChars_encode (cs r : List Char) :
    readChars (cs.flatMap escapeChar ++ '"' :: r) = some (cs, r) := by
  simp only [readChars, readUnits_encode, decodeUnits_flatMap, Option.some_bind, Option.map_some']

theorem span_numChars {t r : List Char} (ht : ∀ c ∈ t, isNumChar c = true) (hr : NoNumHead r) :
    (t ++ r).takeWhile isNumChar = t ∧ (t ++ r).dropWhile isNumChar = r := by
  induction t with
  | nil =>
    cases r with
    | nil => exact ⟨rfl, rfl⟩
    | cons c cs => simp [hr c cs rfl]
  | cons c t ih =>
    obtain ⟨h1, h2⟩ := ih fun x hx => ht x (List.mem_cons_of_mem _ hx)
    simp [ht c (List.mem_cons_self _ _), h1, h2]

theorem all_digit_numChars {ds : List Char} (h : ds.all Char.isDigit = true) :
    ∀ c ∈ ds, isNumChar c = true :=
  fun c hc => by simp [isNumChar, List.all_eq_true.mp h c hc]

theorem expPartOk_numChars : ∀ {cs : List Char}, expPartOk cs = true → ∀ c ∈ cs, isNumChar c = true
  | [], _ => by simp
  | [_], h => by simp [expPartOk] at h
  | c :: s :: ds, h => by
    simp only [expPartOk, Bool.and_eq_true, Bool.or_eq_true, beq_iff_eq] at h
    obtain ⟨hc, h⟩ := h
    have hc' : isNumChar c = true := by rcases hc with rfl | rfl <;> rfl
    split at h
    case isTrue hs =>
      have hs' : isNumChar s = true := by rcases hs with rfl | rfl <;> rfl
      simp only [Bool.and_eq_true] at h
      simpa [hc', hs'] using all_digit_numChars h.2
    case isFalse => simpa [hc'] using all_digit_numChars h

theorem fracExpOk_numChars {cs : List Char} (h : fracExpOk cs = true) : ∀ c ∈ cs, isNumChar c = true := by
  unfold fracExpOk at h
  split at h
  case h_1 cs =>
    simp only [Bool.and_eq_true] at h
    rw [← List.takeWhile_append_dropWhile Char.isDigit cs] 
    intro c hc
    simp only [List.mem_cons, List.mem_append] at hc
    rcases hc with rfl | hc | hc
    · rfl
    · simp [isNumChar, List.mem_takeWhile_imp hc]
    · exact expPartOk_numChars h.2 c hc
  case h_2 => exact expPartOk_numChars h

theorem isNumber_numChars {cs : List Char} (h : isNumber cs = true) : ∀ c ∈ cs, isNumChar c = true := by
  have hbody : ∀ body : List Char, intPartOk (body.takeWhile Char.isDigit) && fracExpOk (body.dropWhile Char.isDigit) →
      ∀ c ∈ body, isNumChar c = true := by
    intro body hb c hc
    simp only [Bool.and_eq_true] at hb
    rw [← List.takeWhile_append_dropWhile Char.isDigit body, List.mem_append] at hc
    rcases hc with hc | hc
    · simp [isNumChar, List.mem_takeWhile_imp hc]
    · exact fracExpOk_numChars hb.2 c hc
  simp only [isNumber] at h
  split at h
  case h_1 body =>
    intro c hc
    rcases List.mem_cons.mp hc with rfl | hc
    · rfl
    · exact hbody body h c hc
  case h_2 => exact hbody _ h

theorem numberOk_head {lenient : Bool} {t : String} (h : numberOk lenient t = true) :
    ∃ c cs, t.toList = c :: cs ∧ (isNumChar c = true ∨ c = 'N' ∨ c = 'I') := by
  simp only [numberOk, Bool.or_eq_true, Bool.and_eq_true] at h
  rcases h with h | ⟨-, h⟩
  · cases ht : t.toList with
    | nil => rw [ht] at h; simp [isNumber, intPartOk] at h
    | cons c cs => exact ⟨c, cs, rfl, .inl (isNumber_numChars h c (ht ▸ List.mem_cons_self c cs))⟩
  · simp [nonFinite] at h
    rcases h with rfl | rfl | rfl
    · exact ⟨_, _, rfl, .inr (.inl rfl)⟩
    · exact ⟨_, _, rfl, .inr (.inr rfl)⟩
    · exact ⟨_, _, rfl, .inl rfl⟩

theorem isNumChar_facts {c : Char} (h : isNumChar c = true ∨ c = 'N' ∨ c = 'I') :
    isWs c = false ∧ c ≠ ']' ∧ c ≠ '}' ∧ c ≠ 'n' ∧ c ≠ 't' ∧ c ≠ 'f' ∧ c ≠ '"' ∧ c ≠ '[' ∧ c ≠ '{' := by
  rcases h with h | rfl | rfl
  · have hw : isWs c = false := by
      cases hw : isWs c
      · rfl
      · simp only [isWs, Bool.or_eq_true, beq_iff_eq] at hw
        rcases hw with ((rfl | rfl) | rfl) | rfl <;> exact absurd h (by decide)
    refine ⟨hw, ?_, ?_, ?_, ?_, ?_, ?_, ?_, ?_⟩ <;> (rintro rfl; exact absurd h (by decide))
  all_goals decide

theorem readNumber_token {lenient : Bool} {t : String} (h : numberOk lenient t = true) {r : List Char}
    (hr : NoNumHead r) : readNumber lenient (t.toList ++ r) = some (.number t, r) := by
  simp only [numberOk, Bool.or_eq_true, Bool.and_eq_true] at h
  rcases h with h | ⟨rfl, h⟩
  · obtain ⟨h1, h2⟩ := span_numChars (isNumber_numChars h) hr
    simp only [readNumber, h1, h2, h, if_true]
    rfl
  · simp [nonFinite] at h
    rcases h with rfl | rfl | rfl <;> rfl

theorem skipWs_append_ws {w : List Char} (hw : w.all isWs = true) (cs : List Char) :
    skipWs (w ++ cs) = skipWs cs := by
  induction w with
  | nil => rfl
  | cons c w ih =>
    simp only [List.all_cons, Bool.and_eq_true] at hw
    rw [List.cons_append, skipWs, if_pos hw.1, ih hw.2]

theorem newlineIndent_ws (l : Nat) : (newlineIndent l).all isWs = true := by
  simp [newlineIndent, isWs, List.all_replicate]

theorem skipWs_cons {c : Char} (h : isWs c = false) (cs : List Char) : skipWs (c :: cs) = c :: cs := by
  rw [skipWs, if_neg (by simp [h])]

theorem readValue_ws {lenient : Bool} {w : List Char} (hw : w.all isWs = true) (n : Nat) (cs : List Char) :
    readValue lenient n (w ++ cs) = readValue lenient n cs := by
  cases n with
  | zero => rfl
  | succ n => simp only [readValue, skipWs_append_ws hw]

theorem readMember_ws {lenient : Bool} {w : List Char} (hw : w.all isWs = true) (n : Nat) (cs : List Char) :
    readMember lenient n (w ++ cs) = readMember lenient n cs := by
  cases n with
  | zero => rfl
  | succ n => simp only [readMember, skipWs_append_ws hw]

theorem readValue_literal {lenient : Bool} {c : Char} (hw : isWs c = false) (h₁ : c ≠ '"')
    (h₂ : c ≠ '[') (h₃ : c ≠ '{') (n : Nat) (cs : List Char) :
    readValue lenient (n + 1) (c :: cs) = readLiteral lenient (c :: cs) := by
  simp only [readValue, skipWs, hw]
  split <;> simp_all

theorem readLiteral_keyword {lenient : Bool} (r : List Char) :
    readLiteral lenient ("null".toList ++ r) = some (.null, r) ∧
      readLiteral lenient ("true".toList ++ r) = some (.bool true, r) ∧
      readLiteral lenient ("false".toList ++ r) = some (.bool false, r) := by
  simp [readLiteral, List.isPrefixOf]

theorem readValue_number {lenient : Bool} {c : Char} (hc : isNumChar c = true ∨ c = 'N' ∨ c = 'I')
    (n : Nat) (cs : List Char) : readValue lenient (n + 1) (c :: cs) = readNumber lenient (c :: cs) := by
  obtain ⟨hw, -, -, h₁, h₂, h₃, h₄, h₅, h₆⟩ := isNumChar_facts hc
  rw [readValue_literal hw h₄ h₅ h₆, readLiteral]
  simp [List.isPrefixOf, Ne.symm h₁, Ne.symm h₂, Ne.symm h₃]

theorem readValue_string {lenient : Bool} (n : Nat) (cs : List Char) :
    readValue lenient (n + 1) ('"' :: cs) = (readChars cs).map fun p => (.string (String.mk p.1), p.2) := by
  simp only [readValue, skipWs_cons (show isWs '"' = false from rfl)]

theorem readValue_array {lenient : Bool} {cs : List Char} (n : Nat) (h : StartsValue (skipWs cs)) :
    readValue lenient (n + 1) ('[' :: cs) = (readValue lenient n cs).bind fun p =>
      (readElems lenient n p.2).bind fun q => some (.array (p.1 :: q.1), q.2) := by
  obtain ⟨c, t, hcs, -, hc, -⟩ := h
  simp only [readValue, skipWs_cons (show isWs '[' = false from rfl), hcs]
  split <;> simp_all

theorem readValue_object {lenient : Bool} {cs : List Char} (n : Nat) (h : StartsValue (skipWs cs)) :
    readValue lenient (n + 1) ('{' :: cs) = (readMember lenient n cs).bind fun p =>
      (readMembers lenient n p.2).bind fun q => some (.object (p.1 :: q.1), q.2) := by
  obtain ⟨c, t, hcs, -, -, hc⟩ := h
  simp only [readValue, skipWs_cons (show isWs '{' = false from rfl), hcs]
  split <;> simp_all

theorem readElems_close {lenient : Bool} {cs t : List Char} (n : Nat) (hcs : skipWs cs = ']' :: t) :
    readElems lenient (n + 1) cs = some ([], t) := by
  simp only [readElems, hcs]

theorem readElems_comma {lenient : Bool} (n : Nat) (cs : List Char) :
    readElems lenient (n + 1) (',' :: cs) = (readValue lenient n cs).bind fun p =>
      (readElems lenient n p.2).bind fun q => some (p.1 :: q.1, q.2) := by
  simp only [readElems, skipWs_cons (show isWs ',' = false from rfl)]
  rfl

theorem readMember_key {lenient : Bool} {cs k rest : List Char} (n : Nat)
    (hk : readChars cs = some (k, ':' :: rest)) :
    readMember lenient (n + 1) ('"' :: cs) =
      (readValue lenient n rest).map fun p => ((String.mk k, p.1), p.2) := by
  simp only [readMember, skipWs_cons (show isWs '"' = false from rfl), hk, Option.bind_eq_bind,
    Option.some_bind, skipWs_cons (show isWs ':' = false from rfl)]
  cases readValue lenient n rest <;> rfl

theorem readMembers_close {lenient : Bool} {cs t : List Char} (n : Nat) (hcs : skipWs cs = '}' :: t) :
    readMembers lenient (n + 1) cs = some ([], t) := by
  simp only [readMembers, hcs]

theorem readMembers_comma {lenient : Bool} (n : Nat) (cs : List Char) :
    readMembers lenient (n + 1) (',' :: cs) = (readMember lenient n cs).bind fun p =>
      (readMembers lenient n p.2).bind fun q => some (p.1 :: q.1, q.2) := by
  simp only [readMembers, skipWs_cons (show isWs ',' = false from rfl)]
  rfl

theorem JsonValue.size_pos (j : JsonValue) : 0 < j.size := by
  unfold JsonValue.size
  split <;> omega

theorem noNumHead_cons {c : Char} (h : isNumChar c = false) (cs : List Char) : NoNumHead (c :: cs) := by
  intro c' cs' he
  cases he
  exact h

theorem noNumHead_elems (vs : List JsonValue) (level level' : Nat) (r : List Char) :
    NoNumHead (JsonValue.renderElems vs level ++ (newlineIndent level' ++ ']' :: r)) := by
  cases vs <;> exact noNumHead_cons (by decide) _

theorem noNumHead_members (ms : List (String × JsonValue)) (level level' : Nat) (r : List Char) :
    NoNumHead (JsonValue.renderMembers ms level ++ (newlineIndent level' ++ '}' :: r)) := by
  cases ms <;> exact noNumHead_cons (by decide) _

theorem render_startsValue {lenient : Bool} {j : JsonValue} (h : j.numbersOk lenient = true)
    (level : Nat) : StartsValue (j.render level) := by
  match j, h with
  | .null, _ => exact ⟨_, _, rfl, by decide⟩
  | .bool true, _ => exact ⟨_, _, rfl, by decide⟩
  | .bool false, _ => exact ⟨_, _, rfl, by decide⟩
  | .string _, _ => exact ⟨_, _, rfl, by decide⟩
  | .array [], _ => exact ⟨_, _, rfl, by decide⟩
  | .array (_ :: _), _ => exact ⟨_, _, rfl, by decide⟩
  | .object [], _ => exact ⟨_, _, rfl, by decide⟩
  | .object (_ :: _), _ => exact ⟨_, _, rfl, by decide⟩
  | .number t, h =>
    obtain ⟨c, cs, hcs, hc⟩ := numberOk_head h
    obtain ⟨hw, hb, hc, -⟩ := isNumChar_facts hc
    exact ⟨c, cs, by rw [JsonValue.render, hcs], hw, hb, hc⟩

theorem startsValue_skipWs {w cs : List Char} (hw : w.all isWs = true) (h : StartsValue cs)
    (r : List Char) : StartsValue (skipWs (w ++ (cs ++ r))) := by
  obtain ⟨c, t, rfl, hc⟩ := h
  rw [skipWs_append_ws hw, List.cons_append, skipWs_cons hc.1]
  exact ⟨c, _, rfl, hc⟩

theorem readValue_encode {lenient : Bool} (s : String) (n : Nat) (r : List Char) :
    readValue lenient (n + 1) (encodeBasestringAscii s ++ r) = some (.string s, r) := by
  simp only [encodeBasestringAscii, List.cons_append, List.append_assoc, List.singleton_append,
    readValue_string, readChars_encode]
  rfl

theorem readMember_render {lenient : Bool} (k : String) {v : JsonValue} {m level level' : Nat}
    {r : List Char} (hv : readValue lenient m (v.render level ++ r) = some (v, r)) :
    readMember lenient (m + 1) (newlineIndent level' ++ (encodeBasestringAscii k ++ ':' :: ' ' :: (v.render level ++ r))) =
      some ((k, v), r) := by
  rw [readMember_ws (newlineIndent_ws level')]
  simp only [encodeBasestringAscii, List.cons_append, List.append_assoc, List.singleton_append,
    List.nil_append]
  rw [readMember_key m (readChars_encode _ _), ← List.singleton_append,
    readValue_ws (by rfl : [' '].all isWs = true), hv]
  rfl

section Roundtrip

variable {lenient : Bool}

mutual
theorem readValue_render : ∀ (j : JsonValue) (level n : Nat) (r : List Char),
    j.size ≤ n → j.numbersOk lenient = true → NoNumHead r →
    readValue lenient n (j.render level ++ r) = some (j, r)
  | j, _, 0, _, hs, _, _ => absurd hs (by have := j.size_pos; omega)
  | .null, _, n + 1, r, _, _, _ =>
    (readValue_literal (by rfl) (by decide) (by decide) (by decide) n _).trans (readLiteral_keyword r).1
  | .bool true, _, n + 1, r, _, _, _ =>
    (readValue_literal (by rfl) (by decide) (by decide) (by decide) n _).trans (readLiteral_keyword r).2.1
  | .bool false, _, n + 1, r, _, _, _ =>
    (readValue_literal (by rfl) (by decide) (by decide) (by decide) n _).trans (readLiteral_keyword r).2.2
  | .number t, _, n + 1, r, _, h, hr => by
    obtain ⟨c, cs, hcs, hc⟩ := numberOk_head h
    simp only [JsonValue.render]
    rw [hcs, List.cons_append, readValue_number hc, ← List.cons_append, ← hcs, readNumber_token h hr]
  | .string s, _, n + 1, r, _, _, _ => readValue_encode s n r
  | .array [], _, _ + 1, _, _, _, _ => rfl
  | .array (v :: vs), level, n + 1, r, hs, h, hr => by
    simp only [JsonValue.size] at hs
    simp only [JsonValue.numbersOk, JsonValue.numbersOkList, Bool.and_eq_true] at h
    have hv := readValue_render v (level + 1) n _ (by omega) h.1 (noNumHead_elems vs (level + 1) level r)
    have hvs := readElems_render vs (level + 1) level n r (by omega) h.2
    simp only [JsonValue.render, List.cons_append, List.append_assoc, List.singleton_append,
      List.nil_append]
    rw [readValue_array n (startsValue_skipWs (newlineIndent_ws _) (render_startsValue h.1 _) _),
      readValue_ws (newlineIndent_ws _), hv, Option.some_bind, hvs]
    rfl
  | .object [], _, _ + 1, _, _, _, _ => rfl
  | .object ((k, v) :: ms), level, n + 1, r, hs, h, hr => by
    simp only [JsonValue.size] at hs
    simp only [JsonValue.numbersOk, JsonValue.numbersOkMembers, Bool.and_eq_true] at h
    obtain ⟨m, rfl⟩ : ∃ m, n = m + 1 := ⟨n - 1, by omega⟩
    have hv := readValue_render v (level + 1) m _ (by omega) h.1 (noNumHead_members ms (level + 1) level r)
    have hms := readMembers_render ms (level + 1) level (m + 1) r (by omega) h.2
    simp only [JsonValue.render, List.cons_append, List.append_assoc, List.singleton_append,
      List.nil_append]
    rw [readValue_object _ (startsValue_skipWs (newlineIndent_ws _)
      (show StartsValue (encodeBasestringAscii k) from ⟨'"', _, rfl, by decide⟩) _),
      readMember_render k hv, Option.some_bind, hms]
    rfl
theorem readElems_render : ∀ (vs : List JsonValue) (level level' n : Nat) (r : List Char),
    JsonValue.sizeElems vs ≤ n → JsonValue.numbersOkList lenient vs = true →
    readElems lenient n (JsonValue.renderElems vs level ++ (newlineIndent level' ++ ']' :: r)) = some (vs, r)
  | vs, _, _, 0, _, hs, _ => by cases vs <;> simp [JsonValue.sizeElems] at hs
  | [], _, level', n + 1, r, _, _ =>
    readElems_close n (by rw [JsonValue.renderElems, List.nil_append, skipWs_append_ws (newlineIndent_ws _)]; rfl)
  | v :: vs, level, level', n + 1, r, hs, h => by
    simp only [JsonValue.sizeElems] at hs
    simp only [JsonValue.numbersOkList, Bool.and_eq_true] at h
    have hv := readValue_render v level n _ (by omega) h.1 (noNumHead_elems vs level level' r)
    have hvs := readElems_render vs level level' n r (by omega) h.2
    simp only [JsonValue.renderElems, List.cons_append, List.append_assoc]
    rw [readElems_comma, readValue_ws (newlineIndent_ws _), hv, Option.some_bind, hvs]
    rfl
theorem readMembers_render : ∀ (ms : List (String × JsonValue)) (level level' n : Nat) (r : List Char),
    JsonValue.sizeMembers ms ≤ n → JsonValue.numbersOkMembers lenient ms = true →
    readMembers lenient n (JsonValue.renderMembers ms level ++ (newlineIndent level' ++ '}' :: r)) =
      some (ms, r)
  | ms, _, _, 0, _, hs, _ => by cases ms <;> simp [JsonValue.sizeMembers] at hs
  | [], _, level', n + 1, r, _, _ =>
    readMembers_close n (by rw [JsonValue.renderMembers, List.nil_append, skipWs_append_ws (newlineIndent_ws _)]; rfl)
  | (k, v) :: ms, level, level', n + 1, r, hs, h => by
    simp only [JsonValue.sizeMembers] at hs
    simp only [JsonValue.numbersOkMembers, Bool.and_eq_true] at h
    obtain ⟨m, rfl⟩ : ∃ m, n = m + 1 := ⟨n - 1, by omega⟩
    have hv := readValue_render v level m _ (by omega) h.1 (noNumHead_members ms level level' r)
    have hms := readMembers_render ms level level' (m + 1) r (by omega) h.2
    simp only [JsonValue.renderMembers, List.cons_append, List.append_assoc]
    rw [readMembers_comma, readMember_render k hv, Option.some_bind, hms]
    rfl
end

theorem length_newlineIndent (level : Nat) : (newlineIndent level).length = 2 * level + 1 := by
  simp [newlineIndent]

mutual
theorem size_le_render : ∀ (j : JsonValue) (level : Nat), j.numbersOk lenient = true →
    j.size ≤ (j.render level).length
  | .null, _, _ | .bool true, _, _ | .bool false, _, _ | .array [], _, _ | .object [], _, _ => by
    simp [JsonValue.size, JsonValue.render]
  | .string _, _, _ => by simp [JsonValue.size, JsonValue.render, encodeBasestringAscii]
  | .number t, _, h => by
    obtain ⟨c, cs, hcs, -⟩ := numberOk_head h
    rw [JsonValue.render, hcs]
    simp [JsonValue.size]
  | .array (v :: vs), level, h => by
    simp only [JsonValue.numbersOk, JsonValue.numbersOkList, Bool.and_eq_true] at h
    have := size_le_render v (level + 1) h.1
    have := sizeElems_le_render vs (level + 1) h.2
    simp only [JsonValue.size, JsonValue.render, List.length_cons, List.length_append,
      length_newlineIndent, List.length_singleton]
    omega
  | .object ((k, v) :: ms), level, h => by
    simp only [JsonValue.numbersOk, JsonValue.numbersOkMembers, Bool.and_eq_true] at h
    have := size_le_render v (level + 1) h.1
    have := sizeMembers_le_render ms (level + 1) h.2
    simp only [JsonValue.size, JsonValue.render, List.length_cons, List.length_append,
      length_newlineIndent, List.length_singleton]
    omega
theorem sizeElems_le_render : ∀ (vs : List JsonValue) (level : Nat),
    JsonValue.numbersOkList lenient vs = true →
    JsonValue.sizeElems vs ≤ (JsonValue.renderElems vs level).length + 1
  | [], _, _ => le_rfl
  | v :: vs, level, h => by
    simp only [JsonValue.numbersOkList, Bool.and_eq_true] at h
    have := size_le_render v level h.1
    have := sizeElems_le_render vs level h.2
    simp only [JsonValue.sizeElems, JsonValue.renderElems, List.length_cons, List.length_append,
      length_newlineIndent]
    omega
theorem sizeMembers_le_render : ∀ (ms : List (String × JsonValue)) (level : Nat),
    JsonValue.numbersOkMembers lenient ms = true →
    JsonValue.sizeMembers ms ≤ (JsonValue.renderMembers ms level).length + 1
  | [], _, _ => le_rfl
  | (k, v) :: ms, level, h => by
    simp only [JsonValue.numbersOkMembers, Bool.and_eq_true] at h
    have := size_le_render v level h.1
    have := sizeMembers_le_render ms level h.2
    simp only [JsonValue.sizeMembers, JsonValue.renderMembers, List.length_cons, List.length_append,
      length_newlineIndent]
    omega
end

/-- The reader reads back the layout of every document whose numbers it takes. -/
theorem readJson_render {j : JsonValue} (h : j.numbersOk lenient = true) :
    readJson lenient (String.mk (j.render 0)) = some j := by
  have hr := readValue_render j 0 ((j.render 0).length + 1) [] (by have := size_le_render j 0 h; omega) h
    (fun _ _ he => nomatch he)
  rw [List.append_nil] at hr
  simp only [readJson, String.length]
  rw [show (String.mk (j.render 0)).toList = j.render 0 from rfl, hr]
  rfl

end Roundtrip

end Restflow
