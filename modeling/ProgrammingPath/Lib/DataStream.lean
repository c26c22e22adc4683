import Mathlib.Data.List.GetD

/-!
# Data streams

`DataOutputStream` and `DataInputStream` of Java over byte arrays. The writers keep the low bits of
their argument, the readers extend the sign, and a reader that finds too few bytes throws. Java's
integers are `Int`s here; what is written never depends on more than the low 16 bits of one.
-/

namespace ProgrammingPath.Lib

/-- What the code under a reader can throw. -/
inductive Exn
  | eof
  | negativeArraySize
  | indexOutOfBounds
  deriving DecidableEq, Repr

/-! ## Writers -/

def writeByte (v : Int) : List UInt8 := [UInt8.ofInt v]

def writeShort (v : Int) : List UInt8 := [UInt8.ofInt (v / 256), UInt8.ofInt v]

@[simp] theorem length_writeByte (v : Int) : (writeByte v).length = 1 := rfl

@[simp] theorem length_writeShort (v : Int) : (writeShort v).length = 2 := rfl

/-! ## Readers -/

/-- A byte as Java's `byte` has it. -/
def signed8 (b : UInt8) : Int := if b.toNat < 128 then b.toNat else b.toNat - 256

/-- Two bytes as Java's `short` has them. -/
def signed16 (hi lo : UInt8) : Int :=
  if hi.toNat < 128 then hi.toNat * 256 + lo.toNat else hi.toNat * 256 + lo.toNat - 65536

def readByte : List UInt8 → Except Exn (Int × List UInt8)
  | b :: rest => .ok (signed8 b, rest)
  | [] => .error .eof

def readShort : List UInt8 → Except Exn (Int × List UInt8)
  | hi :: lo :: rest => .ok (signed16 hi lo, rest)
  | _ => .error .eof

/-- `read(buf, 0, n)` into a new array: as many bytes as there are, and zeros behind them. -/
def readInto (n : Nat) (input : List UInt8) : List UInt8 × List UInt8 :=
  (input.take n ++ List.replicate (n - input.length) 0, input.drop n)

/-- The length of a new array. -/
def newArray (n : Int) : Except Exn Nat :=
  if n < 0 then .error .negativeArraySize else .ok n.toNat

@[simp] theorem readByte_cons (b : UInt8) (rest : List UInt8) :
    readByte (b :: rest) = .ok (signed8 b, rest) := rfl

@[simp] theorem readShort_cons (hi lo : UInt8) (rest : List UInt8) :
    readShort (hi :: lo :: rest) = .ok (signed16 hi lo, rest) := rfl

/-- Enough bytes are all read. -/
theorem readInto_append {n : Nat} {bytes : List UInt8} (h : bytes.length = n) (rest : List UInt8) :
    readInto n (bytes ++ rest) = (bytes, rest) := by
  have hpad : n - (bytes ++ rest).length = 0 := by
    rw [List.length_append]
    omega
  rw [readInto, List.take_left' h, List.drop_left' h, hpad, List.replicate_zero, List.append_nil]

/-! ## When a reader returns -/

theorem bind_eq_ok {ε α β : Type} {x : Except ε α} {f : α → Except ε β} {r : β} :
    (x >>= f) = .ok r ↔ ∃ a, x = .ok a ∧ f a = .ok r := by
  cases x with
  | error e => simp [bind, Except.bind]
  | ok a => simp [bind, Except.bind]

theorem readByte_eq_ok {input rest : List UInt8} {v : Int} :
    readByte input = .ok (v, rest) ↔ ∃ b, input = b :: rest ∧ v = signed8 b := by
  cases input with
  | nil => simp [readByte]
  | cons b more =>
    simp only [readByte, Except.ok.injEq, Prod.mk.injEq, List.cons.injEq]
    constructor
    · rintro ⟨rfl, rfl⟩
      exact ⟨b, ⟨rfl, rfl⟩, rfl⟩
    · rintro ⟨_, ⟨rfl, rfl⟩, rfl⟩
      exact ⟨rfl, rfl⟩

theorem readShort_eq_ok {input rest : List UInt8} {v : Int} :
    readShort input = .ok (v, rest) ↔ ∃ hi lo, input = hi :: lo :: rest ∧ v = signed16 hi lo := by
  match input with
  | [] => simp [readShort]
  | [_] => simp [readShort]
  | hi :: lo :: more =>
    simp only [readShort, Except.ok.injEq, Prod.mk.injEq, List.cons.injEq]
    constructor
    · rintro ⟨rfl, rfl⟩
      exact ⟨hi, lo, ⟨rfl, rfl, rfl⟩, rfl⟩
    · rintro ⟨_, _, ⟨rfl, rfl, rfl⟩, rfl⟩
      exact ⟨rfl, rfl⟩

theorem newArray_eq_ok {v : Int} {n : Nat} : newArray v = .ok n ↔ v = n := by
  rw [newArray]
  split
  · simp only [reduceCtorEq, false_iff]
    omega
  · rw [Except.ok.injEq]
    omega

/-! ## Written and read -/

theorem toNat_ofInt (v : Int) : ((UInt8.ofInt v).toNat : Int) = v % 256 := by
  have hpos : 0 ≤ v % 256 := Int.emod_nonneg _ (by decide)
  have hlt : v % 256 < 256 := Int.emod_lt_of_pos _ (by decide)
  rw [UInt8.ofInt, UInt8.toNat_ofNat']
  omega

/-- A byte keeps the values of a Java `byte`. -/
theorem signed8_ofInt_eq_iff (v : Int) : signed8 (UInt8.ofInt v) = v ↔ -128 ≤ v ∧ v < 128 := by
  have hbyte := toNat_ofInt v
  rw [signed8]
  split <;> omega

/-- Two bytes keep the values of a Java `short`. -/
theorem signed16_ofInt (v : Int) :
    signed16 (UInt8.ofInt (v / 256)) (UInt8.ofInt v) = (v + 32768) % 65536 - 32768 := by
  have hhi := toNat_ofInt (v / 256)
  have hlo := toNat_ofInt v
  rw [signed16]
  split <;> omega

theorem signed16_ofInt_eq_iff (v : Int) :
    signed16 (UInt8.ofInt (v / 256)) (UInt8.ofInt v) = v ↔ -32768 ≤ v ∧ v < 32768 := by
  rw [signed16_ofInt]
  omega

end ProgrammingPath.Lib
