/-!
# Text in bytes

A text of a class file is a sequence of bytes in one of two encodings: UTF-8, or its modified form, in which the null character takes
two bytes and a character beyond the first 65536 is a pair of surrogates of three bytes each. `ofBytes` reads either; where neither
fits, it reads UTF-8 and puts a replacement character for every malformed part.
-/

namespace ThreeAddress.Text

/-- The low six bits of a byte that continues a character. -/
def continuation? (b : UInt8) : Option Nat :=
  if 0x80 ≤ b ∧ b ≤ 0xbf then some (b.toNat - 0x80) else none

/-- The second byte may follow the first one of three. -/
def startsThree (a b : UInt8) : Bool :=
  (a == 0xe0 && 0xa0 ≤ b && b ≤ 0xbf) || (0xe1 ≤ a && a ≤ 0xec && 0x80 ≤ b && b ≤ 0xbf) ||
    (a == 0xed && 0x80 ≤ b && b ≤ 0x9f) || (0xee ≤ a && a ≤ 0xef && 0x80 ≤ b && b ≤ 0xbf)

/-- The second byte may follow the first one of four. -/
def startsFour (a b : UInt8) : Bool :=
  (a == 0xf0 && 0x90 ≤ b && b ≤ 0xbf) || (0xf1 ≤ a && a ≤ 0xf3 && 0x80 ≤ b && b ≤ 0xbf) ||
    (a == 0xf4 && 0x80 ≤ b && b ≤ 0x8f)

/-- The character of two bytes. -/
def char2 (a : UInt8) (b : Nat) : Char :=
  Char.ofNat ((a.toNat - 0xc0) * 64 + b)

/-- The character of three bytes. -/
def char3 (a : UInt8) (b c : Nat) : Char :=
  Char.ofNat (((a.toNat - 0xe0) * 64 + b) * 64 + c)

/-- The character of four bytes. -/
def char4 (a : UInt8) (b c d : Nat) : Char :=
  Char.ofNat ((((a.toNat - 0xf0) * 64 + b) * 64 + c) * 64 + d)

/-- What the bytes after a first byte make of it in UTF-8: a character or a malformed part, as long as it could be the beginning of a
character, and the number of bytes after the first one that belong to it. -/
def scan (a : UInt8) (rest : List UInt8) : Option Char × Nat :=
  if a < 0x80 then (some (Char.ofNat a.toNat), 0)
  else if 0xc2 ≤ a && a ≤ 0xdf then
    match rest with
    | b :: _ =>
      match continuation? b with
      | some x => (some (char2 a x), 1)
      | none => (none, 0)
    | [] => (none, 0)
  else if 0xe0 ≤ a && a ≤ 0xef then
    match rest with
    | b :: tail =>
      if startsThree a b then
        match tail.head?.bind continuation? with
        | some y => (some (char3 a (b.toNat - 0x80) y), 2)
        | none => (none, 1)
      else (none, 0)
    | [] => (none, 0)
  else if 0xf0 ≤ a && a ≤ 0xf4 then
    match rest with
    | b :: tail =>
      if startsFour a b then
        match tail.head?.bind continuation?, (tail.drop 1).head?.bind continuation? with
        | some y, some z => (some (char4 a (b.toNat - 0x80) y z), 3)
        | some _, none => (none, 2)
        | none, _ => (none, 1)
      else (none, 0)
    | [] => (none, 0)
  else (none, 0)

/-- The characters and malformed parts of a sequence of bytes. -/
def scanAll : List UInt8 → List (Option Char)
  | [] => []
  | a :: rest => (scan a rest).1 :: scanAll (rest.drop (scan a rest).2)
termination_by bs => bs.length
decreasing_by simp only [List.length_drop, List.length_cons]; omega

/-- The character of a pair of surrogates, without their leading bytes. -/
def surrogatePair (b c e f : UInt8) : Char :=
  Char.ofNat (0x10000 + (((b.toNat - 0xa0) * 64 + (c.toNat - 0x80)) * 1024 + ((e.toNat - 0xb0) * 64 + (f.toNat - 0x80))))

/-- One character of the modified form, and the number of bytes after the first one that belong to it. -/
def scanModified (a : UInt8) (rest : List UInt8) : Option (Char × Nat) :=
  if a = 0 then none
  else if a < 0x80 then some (Char.ofNat a.toNat, 0)
  else if a = 0xc0 then if rest.head? = some 0x80 then some (Char.ofNat 0, 1) else none
  else if a < 0xf0 then
    match scan a rest with
    | (some c, k) => some (c, k)
    | (none, _) =>
      match rest with
      | b :: c :: 0xed :: e :: f :: _ =>
        if a = 0xed ∧ 0xa0 ≤ b ∧ b ≤ 0xaf ∧ (continuation? c).isSome ∧ 0xb0 ≤ e ∧ e ≤ 0xbf ∧ (continuation? f).isSome then
          some (surrogatePair b c e f, 5)
        else none
      | _ => none
  else none

/-- The characters of a text in the modified form. -/
def scanAllModified : List UInt8 → Option (List Char)
  | [] => some []
  | a :: rest =>
    match scanModified a rest with
    | some (c, k) => (scanAllModified (rest.drop k)).map (c :: ·)
    | none => none
termination_by bs => bs.length
decreasing_by simp only [List.length_drop, List.length_cons]; omega

/-- The character that stands for a malformed part. -/
def replacement : Char := '\ufffd'

/-- The text of a sequence of bytes. -/
def ofBytes (bs : List UInt8) : String :=
  let parts := scanAll bs
  if parts.all Option.isSome then String.ofList (parts.filterMap id)
  else
    match scanAllModified bs with
    | some cs => String.ofList cs
    | none => String.ofList (parts.map (·.getD replacement))

end ThreeAddress.Text
