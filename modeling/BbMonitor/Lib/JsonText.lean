import Mathlib.Data.List.Basic

/-!
# Texts of flat JSON objects

`readObject` reads the text of a JSON object whose values are all strings, and gives its
members in order, with the escapes undone.  Texts are lists of bytes; the bytes of a string
outside of ASCII are kept as they are.  Of the escapes `\u` only those are read that stand for
a character of their own, not the halves of surrogate pairs.

How the strings are written is left open: `Denotes written s` says that `written` between
quotation marks is read as `s`.  An object that is put together from such strings is read
back member by member (`readObject_objectText`).
-/

namespace BbMonitor.JsonText

/-- A text in bytes. -/
abbrev Text := List UInt8

def quotation : UInt8 := 0x22

def backslash : UInt8 := 0x5c

def colon : UInt8 := 0x3a

def comma : UInt8 := 0x2c

def leftBrace : UInt8 := 0x7b

def rightBrace : UInt8 := 0x7d

def blank : UInt8 := 0x20

/-! ## Strings -/

def hexDigit? (c : UInt8) : Option ℕ :=
  if 0x30 ≤ c ∧ c ≤ 0x39 then some (c.toNat - 0x30)
  else if 0x61 ≤ c ∧ c ≤ 0x66 then some (c.toNat - 0x61 + 10)
  else if 0x41 ≤ c ∧ c ≤ 0x46 then some (c.toNat - 0x41 + 10)
  else none

/-- The character of the escape `\u` with four digits. -/
def unicode? (a b c d : UInt8) : Option Text := do
  let a ← hexDigit? a
  let b ← hexDigit? b
  let c ← hexDigit? c
  let d ← hexDigit? d
  let n := ((a * 16 + b) * 16 + c) * 16 + d
  if n < 0xd800 ∨ 0xe000 ≤ n then some (String.utf8EncodeChar (Char.ofNat n)) else none

/-- The character of an escape with a letter. -/
def letter? (c : UInt8) : Option UInt8 :=
  if c = quotation ∨ c = backslash ∨ c = 0x2f then some c
  else if c = 0x62 then some 0x08
  else if c = 0x66 then some 0x0c
  else if c = 0x6e then some 0x0a
  else if c = 0x72 then some 0x0d
  else if c = 0x74 then some 0x09
  else none

/-- A string from behind its opening quotation mark on, and what follows it. -/
def readString : Text → Option (Text × Text)
  | [] => none
  | c :: rest =>
      if c = quotation then some ([], rest)
      else if c = backslash then
        match rest with
        | [] => none
        | e :: rest =>
            if e = 0x75 then
              match rest with
              | a :: b :: c :: d :: rest =>
                  (unicode? a b c d).bind fun s => (readString rest).map (Prod.map (s ++ ·) id)
              | _ => none
            else (letter? e).bind fun x => (readString rest).map (Prod.map (x :: ·) id)
      else if c < 0x20 then none
      else (readString rest).map (Prod.map (c :: ·) id)

/-- Between quotation marks, `written` is read as `s`. -/
def Denotes (written s : Text) : Prop :=
  ∀ rest, readString (written ++ quotation :: rest) = some (s, rest)

/-- A character that stands for itself. -/
def Plain (c : UInt8) : Prop := c ≠ quotation ∧ c ≠ backslash ∧ 0x20 ≤ c

instance (c : UInt8) : Decidable (Plain c) :=
  inferInstanceAs (Decidable (_ ∧ _ ∧ _))

theorem denotes_nil : Denotes [] [] := by
  intro rest
  rw [List.nil_append, readString.eq_def]
  dsimp only
  rw [if_pos rfl]

theorem Denotes.cons_plain {written s : Text} {c : UInt8} (hc : Plain c)
    (hwritten : Denotes written s) : Denotes (c :: written) (c :: s) := by
  intro rest
  rw [List.cons_append, readString.eq_def]
  dsimp only
  rw [if_neg hc.1, if_neg hc.2.1, if_neg (UInt8.not_lt.mpr hc.2.2), hwritten, Option.map_some]
  rfl

theorem Denotes.cons_letter {written s : Text} {e c : UInt8} (hletter : letter? e = some c)
    (hwritten : Denotes written s) : Denotes (backslash :: e :: written) (c :: s) := by
  intro rest
  have hne : e ≠ 0x75 := by
    intro heq
    have hnone : letter? 0x75 = none := by decide
    rw [heq, hnone] at hletter
    exact absurd hletter (Option.some_ne_none c).symm
  rw [List.cons_append, List.cons_append, readString.eq_def]
  dsimp only
  rw [if_neg (by decide), if_pos rfl]
  rw [if_neg hne, hletter, Option.bind_some, hwritten, Option.map_some]
  rfl

theorem Denotes.cons_unicode {written s character : Text} {a b c d : UInt8}
    (hcharacter : unicode? a b c d = some character) (hwritten : Denotes written s) :
    Denotes (backslash :: 0x75 :: a :: b :: c :: d :: written) (character ++ s) := by
  intro rest
  rw [List.cons_append, List.cons_append, readString.eq_def]
  dsimp only
  rw [if_neg (by decide), if_pos rfl, if_pos rfl, List.cons_append, List.cons_append,
    List.cons_append, List.cons_append]
  dsimp only
  rw [hcharacter, Option.bind_some, hwritten, Option.map_some]
  rfl

theorem denotes_of_plain {s : Text} (hplain : ∀ c ∈ s, Plain c) : Denotes s s := by
  induction s with
  | nil => exact denotes_nil
  | cons c s ih =>
      obtain ⟨hc, hplain⟩ := List.forall_mem_cons.mp hplain
      exact (ih hplain).cons_plain hc

/-! ## A way to write strings -/

def hexDigit (n : ℕ) : UInt8 :=
  if n < 10 then 0x30 + UInt8.ofNat n else 0x61 + UInt8.ofNat (n - 10)

/-- The letter of a short escape. -/
def escapeLetter? (c : UInt8) : Option UInt8 :=
  if c = quotation ∨ c = backslash then some c
  else if c = 0x08 then some 0x62
  else if c = 0x0c then some 0x66
  else if c = 0x0a then some 0x6e
  else if c = 0x0d then some 0x72
  else if c = 0x09 then some 0x74
  else none

/-- Short escapes where there are any, `\u` for the other control characters. -/
def escapeString : Text → Text
  | [] => []
  | c :: rest =>
      match escapeLetter? c with
      | some e => backslash :: e :: escapeString rest
      | none =>
          if c < 0x20 then
            backslash :: 0x75 :: 0x30 :: 0x30 :: hexDigit (c.toNat / 16) ::
              hexDigit (c.toNat % 16) :: escapeString rest
          else c :: escapeString rest

theorem letter?_escapeLetter? {c e : UInt8} (hletter : escapeLetter? c = some e) :
    letter? e = some c := by
  have hall : ∀ n < 256, (escapeLetter? (UInt8.ofNat n)).all
      (fun e => decide (letter? e = some (UInt8.ofNat n))) = true := by
    decide +kernel
  have hc := hall c.toNat c.toNat_lt
  rw [UInt8.ofNat_toNat, hletter, Option.all_some, decide_eq_true_eq] at hc
  exact hc

theorem unicode?_control {c : UInt8} (hc : c < 0x20) :
    unicode? 0x30 0x30 (hexDigit (c.toNat / 16)) (hexDigit (c.toNat % 16)) = some [c] := by
  have hall : ∀ n < 32, unicode? 0x30 0x30 (hexDigit (n / 16)) (hexDigit (n % 16)) =
      some [UInt8.ofNat n] := by decide
  have hcontrol := hall c.toNat (UInt8.lt_iff_toNat_lt.mp hc)
  rwa [UInt8.ofNat_toNat] at hcontrol

theorem plain_of_escapeLetter?_eq_none {c : UInt8} (hletter : escapeLetter? c = none)
    (hc : ¬c < 0x20) : Plain c := by
  refine ⟨?_, ?_, UInt8.not_lt.mp hc⟩
  · intro heq
    rw [heq] at hletter
    exact absurd hletter (by decide)
  · intro heq
    rw [heq] at hletter
    exact absurd hletter (by decide)

theorem denotes_escapeString (s : Text) : Denotes (escapeString s) s := by
  induction s with
  | nil => exact denotes_nil
  | cons c s ih =>
      cases hletter : escapeLetter? c with
      | some e =>
          rw [escapeString, hletter]
          exact ih.cons_letter (letter?_escapeLetter? hletter)
      | none =>
          rw [escapeString, hletter]
          dsimp only
          split
          · next hc => exact ih.cons_unicode (unicode?_control hc)
          · next hc => exact ih.cons_plain (plain_of_escapeLetter?_eq_none hletter hc)

/-! ## Objects -/

def isBlank (c : UInt8) : Bool :=
  c = 0x20 ∨ c = 0x09 ∨ c = 0x0a ∨ c = 0x0d

def skip (text : Text) : Text := text.dropWhile isBlank

/-- What follows the character, if the text begins with it. -/
def expect (c : UInt8) : Text → Option Text
  | [] => none
  | d :: rest => if d = c then some rest else none

def readLiteral (text : Text) : Option (Text × Text) :=
  (expect quotation (skip text)).bind readString

/-- A name, a colon and a value. -/
def readMember (text : Text) : Option ((Text × Text) × Text) := do
  let (name, rest) ← readLiteral text
  let rest ← expect colon (skip rest)
  let (value, rest) ← readLiteral rest
  pure ((name, value), rest)

/-- The members up to the closing brace, at least one. -/
def readMembers : ℕ → Text → Option (List (Text × Text) × Text)
  | 0, _ => none
  | fuel + 1, text => do
      let (member, rest) ← readMember text
      match skip rest with
      | [] => none
      | c :: rest =>
          if c = comma then (readMembers fuel rest).map (Prod.map (member :: ·) id)
          else if c = rightBrace then some ([member], rest)
          else none

/-- The members of an object.  No object has more members than its text has bytes. -/
def readObject (text : Text) : Option (List (Text × Text)) := do
  let rest ← expect leftBrace (skip text)
  let (members, rest) ←
    match expect rightBrace (skip rest) with
    | some rest => some ([], rest)
    | none => readMembers rest.length rest
  if skip rest = [] then some members else none

/-! ## Objects from strings -/

/-- A member with its texts. -/
structure Member where
  name : Text
  value : Text
  writtenName : Text
  writtenValue : Text
  name_denotes : Denotes writtenName name
  value_denotes : Denotes writtenValue value

namespace Member

def pair (m : Member) : Text × Text := (m.name, m.value)

/-- `"name": "value"`. -/
def text (m : Member) : Text :=
  quotation :: (m.writtenName ++
    quotation :: colon :: blank :: quotation :: (m.writtenValue ++ [quotation]))

end Member

def membersText : List Member → Text
  | [] => []
  | m :: ms => m.text ++ ms.flatMap fun m => comma :: blank :: m.text

def objectText (ms : List Member) : Text := leftBrace :: (membersText ms ++ [rightBrace])

theorem skip_cons {c : UInt8} (hc : isBlank c = false) (rest : Text) :
    skip (c :: rest) = c :: rest := by
  rw [skip, List.dropWhile_cons_of_neg (by rw [hc]; exact Bool.false_ne_true)]

theorem skip_blank (rest : Text) : skip (blank :: rest) = skip rest := by
  rw [skip, List.dropWhile_cons_of_pos (by decide), skip]

theorem expect_self (c : UInt8) (rest : Text) : expect c (c :: rest) = some rest := by
  rw [expect, if_pos rfl]

theorem readLiteral_quotation {written s : Text} (hwritten : Denotes written s) (rest : Text) :
    readLiteral (quotation :: (written ++ quotation :: rest)) = some (s, rest) := by
  rw [readLiteral, skip_cons (by decide), expect_self, Option.bind_some, hwritten]

theorem readLiteral_blank (rest : Text) : readLiteral (blank :: rest) = readLiteral rest := by
  rw [readLiteral, skip_blank, readLiteral]

theorem readMember_text (m : Member) (rest : Text) :
    readMember (m.text ++ rest) = some (m.pair, rest) := by
  have htext : m.text ++ rest = quotation :: (m.writtenName ++ quotation :: colon :: blank ::
      quotation :: (m.writtenValue ++ quotation :: rest)) := by
    simp [Member.text]
  rw [readMember, htext, readLiteral_quotation m.name_denotes]
  dsimp only [Option.bind_eq_bind, Option.bind_some]
  rw [skip_cons (by decide), expect_self]
  dsimp only [Option.bind_some]
  rw [readLiteral_blank, readLiteral_quotation m.value_denotes]
  rfl

theorem readMember_blank (rest : Text) : readMember (blank :: rest) = readMember rest := by
  rw [readMember, readLiteral_blank, readMember]

theorem readMembers_blank (fuel : ℕ) (rest : Text) :
    readMembers fuel (blank :: rest) = readMembers fuel rest := by
  cases fuel with
  | zero => rfl
  | succ fuel => rw [readMembers, readMember_blank, readMembers]

theorem membersText_cons_cons (m m' : Member) (ms : List Member) :
    membersText (m :: m' :: ms) = m.text ++ comma :: blank :: membersText (m' :: ms) := by
  rw [membersText, List.flatMap_cons, membersText]
  rfl

theorem readMembers_membersText {ms : List Member} (hne : ms ≠ []) {fuel : ℕ}
    (hfuel : ms.length ≤ fuel) (rest : Text) :
    readMembers fuel (membersText ms ++ rightBrace :: rest) = some (ms.map Member.pair, rest) := by
  induction ms generalizing fuel with
  | nil => exact absurd rfl hne
  | cons m ms ih =>
      cases fuel with
      | zero => exact absurd hfuel (Nat.not_succ_le_zero _)
      | succ fuel =>
          rw [readMembers]
          cases ms with
          | nil =>
              rw [membersText, List.flatMap_nil, List.append_nil, readMember_text]
              dsimp only [Option.bind_eq_bind, Option.bind_some]
              rw [skip_cons (by decide)]
              dsimp only
              rw [if_neg (by decide), if_pos rfl]
              rfl
          | cons m' ms =>
              have htail := ih (List.cons_ne_nil m' ms) (Nat.le_of_succ_le_succ hfuel)
              rw [membersText_cons_cons, List.append_assoc, readMember_text]
              dsimp only [Option.bind_eq_bind, Option.bind_some]
              rw [List.cons_append, skip_cons (by decide)]
              dsimp only
              rw [if_pos rfl, List.cons_append, readMembers_blank, htail, Option.map_some]
              rfl

theorem length_le_membersText (ms : List Member) : ms.length ≤ (membersText ms).length := by
  cases ms with
  | nil => exact Nat.zero_le _
  | cons m ms =>
      have htext : 1 ≤ m.text.length := Nat.succ_le_succ (Nat.zero_le _)
      have hothers : ms.length ≤ (ms.flatMap fun m => comma :: blank :: m.text).length := by
        induction ms with
        | nil => exact Nat.le_refl _
        | cons m ms ih =>
            rw [List.flatMap_cons, List.length_append, List.length_cons, List.length_cons,
              List.length_cons]
            omega
      rw [membersText, List.length_append, List.length_cons]
      omega

theorem membersText_eq_cons {ms : List Member} (hne : ms ≠ []) :
    ∃ rest, membersText ms = quotation :: rest := by
  cases ms with
  | nil => exact absurd rfl hne
  | cons m ms => exact ⟨_, rfl⟩

/-- An object with members is read back. -/
theorem readObject_objectText {ms : List Member} (hne : ms ≠ []) :
    readObject (objectText ms) = some (ms.map Member.pair) := by
  have hfuel : ms.length ≤ (membersText ms ++ [rightBrace]).length := by
    rw [List.length_append]
    exact Nat.le_add_right_of_le (length_le_membersText ms)
  have hmembers := readMembers_membersText hne hfuel []
  obtain ⟨rest, hrest⟩ := membersText_eq_cons hne
  have hbrace : expect rightBrace (skip (membersText ms ++ [rightBrace])) = none := by
    rw [hrest, List.cons_append, skip_cons (by decide), expect, if_neg (by decide)]
  rw [readObject, objectText, skip_cons (by decide), expect_self]
  dsimp only [Option.bind_eq_bind, Option.bind_some]
  rw [hbrace]
  dsimp only
  rw [hmembers]
  rw [Option.bind_some]
  exact if_pos rfl

end BbMonitor.JsonText
