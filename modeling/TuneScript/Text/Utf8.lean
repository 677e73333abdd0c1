import TuneScript.Failure

/-!
Texts from bytes. A text is read strictly: the first byte that cannot belong to it is
reported with its position. Line ends of all three kinds become one.
-/

namespace TuneScript.Text

/-- How many bytes follow a first byte and between which bounds the first of them lies;
a byte that can start nothing has none. -/
def following? (lead : UInt8) : Option (Nat × UInt8 × UInt8) :=
  if lead < 0x80 then some (0, 0x80, 0xBF)
  else if lead < 0xC2 then none
  else if lead < 0xE0 then some (1, 0x80, 0xBF)
  else if lead < 0xF0 then
    some (2, if lead = 0xE0 then 0xA0 else 0x80, if lead = 0xED then 0x9F else 0xBF)
  else if lead < 0xF5 then
    some (3, if lead = 0xF0 then 0x90 else 0x80, if lead = 0xF4 then 0x8F else 0xBF)
  else none

/-- What a first byte adds to the number of its character. -/
def payload (lead : UInt8) : Nat → Nat
  | 0 => lead.toNat
  | 1 => lead.toNat % 32
  | 2 => lead.toNat % 16
  | _ => lead.toNat % 8

/-- Reads the bytes that follow a first byte at position `i`, of which `taken` have been
read. Gives the number of the character and the bytes after it. -/
def continued (lead : UInt8) (i taken : Nat) :
    Nat → UInt8 → UInt8 → Nat → List UInt8 → Result (Nat × List UInt8)
  | 0, _, _, code, rest => .ok (code, rest)
  | _ + 1, _, _, _, [] => .error (.undecodable lead i (i + taken) "unexpected end of data")
  | n + 1, low, high, code, b :: rest =>
    if low ≤ b ∧ b ≤ high then
      continued lead i (taken + 1) n 0x80 0xBF (code * 64 + b.toNat % 64) rest
    else .error (.undecodable lead i (i + taken) "invalid continuation byte")

theorem continued_length {lead : UInt8} {i taken n : Nat} {low high : UInt8} {code : Nat}
    {bytes : List UInt8} {r : Nat × List UInt8}
    (h : continued lead i taken n low high code bytes = .ok r) : r.2.length ≤ bytes.length := by
  induction n generalizing taken low high code bytes with
  | zero => simp only [continued, Except.ok.injEq] at h; subst h; exact Nat.le_refl _
  | succ n ih =>
    cases bytes with
    | nil => simp [continued] at h
    | cons b rest =>
      simp only [continued] at h
      split at h
      · exact Nat.le_succ_of_le (ih h)
      · cases h

/-- The characters of the bytes from position `i` on. -/
def decodeFrom (i : Nat) (bytes : List UInt8) : Result (List Char) :=
  match bytes with
  | [] => .ok []
  | lead :: rest =>
    match following? lead with
    | none => .error (.undecodable lead i i "invalid start byte")
    | some (n, low, high) =>
      match h : continued lead i 0 n low high (payload lead n) rest with
      | .error f => .error f
      | .ok (code, after) =>
        have : after.length ≤ rest.length := continued_length h
        match decodeFrom (i + n + 1) after with
        | .error f => .error f
        | .ok cs => .ok (Char.ofNat code :: cs)
termination_by bytes.length
decreasing_by simp only [List.length_cons]; omega

/-- Every line end becomes a line feed. -/
def unifyLineEnds : List Char → List Char
  | '\r' :: '\n' :: rest => '\n' :: unifyLineEnds rest
  | '\r' :: rest => '\n' :: unifyLineEnds rest
  | c :: rest => c :: unifyLineEnds rest
  | [] => []

/-- The text of a file. -/
def ofBytes (bytes : List UInt8) : Result String :=
  (decodeFrom 0 bytes).map fun cs => String.ofList (unifyLineEnds cs)

def toBytes (s : String) : List UInt8 := s.toUTF8.toList

end TuneScript.Text
