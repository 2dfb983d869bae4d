import TinyWebServer.Lib.Bytes
import TinyWebServer.Lib.Dict
import TinyWebServer.Lib.Loop
import Mathlib.Algebra.Order.Ring.Int

/-!
# How the program stops, and its machine integers

The server is built without `NDEBUG`, so a failing `assert` ends the process;
so does an exception, since every one of them is thrown in a detached worker
and none is caught. Both are a `Fault` here, and a function of the source that
can reach one answers in `Except Fault`. Reading or writing past the end of an
array has no defined outcome, and the model stops there as well.

Sizes are natural numbers. No block the process can hold has `2 ^ 64` bytes,
so the `size_t` sums and differences of the buffer are exact; the places where
a conversion can change a value, a `ssize_t` of `-1` read as a `size_t` or a
`size_t` read as an `int`, are written out with the conversions below.
-/

namespace TinyWebServer

export Lib (Bytes lit Dict)

/-- The assertions of the source, each named after the function it stands
in. -/
inductive Assertion where
  | beginPtr -- `_buffer.size() > 0`
  | updateReadp -- `len <= Readable_Size()`
  | updateReadpEnd -- `Begin_Read_Ptr() <= end`
  | dilatation -- `readable_size == Readable_Size()`
  | lengthGuard -- `_Writeable_Size() >= len`
  | add -- `str`
  | readBuff -- `buff.Readable_Size() > 0`
  | readRequestLine -- `_status == REQUEST_LINE`
  | readHeaderLine -- `_status == HEADERS`
  | handleForm -- `j <= i`
  | addConnection -- `client_fd>=0`
  | setNoBlock -- `fd > 0`
  | start -- `_clients.count(fd) > 0`
  deriving DecidableEq, Repr

/-- Why the process stopped. -/
inductive Fault where
  | assertFailed (a : Assertion)
  -- `std::runtime_error`, with the text it was built from.
  | runtimeError (what : Bytes)
  -- Thrown by a query on a path whose status cannot be determined.
  | filesystemError
  -- An access outside an array or a string.
  | outOfBounds
  -- A loop of the model ran out of fuel.
  | diverged
  deriving DecidableEq, Repr

/-- `assert(p)`. -/
def check (p : Prop) [Decidable p] (a : Assertion) : Except Fault Unit :=
  if p then .ok () else .error (.assertFailed a)

@[simp] theorem check_pos {p : Prop} [Decidable p] {a : Assertion} (h : p) :
    check p a = .ok () := if_pos h

@[simp] theorem check_neg {p : Prop} [Decidable p] {a : Assertion}
    (h : ¬ p) : check p a = .error (.assertFailed a) := if_neg h

theorem check_ok_iff {p : Prop} [Decidable p] {a : Assertion} {u : Unit} :
    check p a = .ok u ↔ p := by
  by_cases h : p
  · simp [h]
  · simp [h]

theorem check_error_iff {p : Prop} [Decidable p] {a : Assertion} {f : Fault} :
    check p a = .error f ↔ ¬ p ∧ f = .assertFailed a := by
  by_cases h : p
  · simp [h]
  · simp [h, eq_comm]

/-- A signed value converted to `size_t`. -/
def toSizeT (x : Int) : Nat := (x % 2 ^ 64).toNat

/-- A `size_t` converted to `ssize_t`. -/
def toSsizeT (n : Nat) : Int := Int.bmod n (2 ^ 64)

/-- A `size_t` narrowed to `int`. -/
def toInt (n : Nat) : Int := Int.bmod n (2 ^ 32)

theorem toInt_of_lt {n : Nat} (h : n < 2 ^ 31) : toInt n = n :=
  Int.bmod_eq_of_le_mul_two (by omega) (by omega)

/-- A size that does not fit is narrowed to a smaller one, or below zero. -/
theorem toInt_toNat_lt {n : Nat} (h : 2 ^ 31 ≤ n) : (toInt n).toNat < n := by
  unfold toInt Int.bmod
  simp only []
  split <;> omega

theorem toInt_toNat_le (n : Nat) : (toInt n).toNat ≤ n := by
  by_cases h : n < 2 ^ 31
  · rw [toInt_of_lt h]
    exact Nat.le_refl n
  · exact Nat.le_of_lt (toInt_toNat_lt (Nat.not_lt.mp h))

theorem toInt_lt (n : Nat) : toInt n < 2 ^ 31 := by
  unfold toInt Int.bmod
  simp only []
  split <;> omega

/-- The numbers just past an `int` are narrowed to negative ones. -/
theorem toInt_neg {n : Nat} (h : 2 ^ 31 ≤ n) (h' : n < 2 ^ 32) :
    toInt n < 0 := by
  unfold toInt Int.bmod
  simp only []
  split <;> omega

theorem of_toInt_nonneg {n : Nat} (h : n < 2 ^ 32) (hn : 0 ≤ toInt n) :
    n < 2 ^ 31 := by
  by_contra hle
  have hneg := toInt_neg (Nat.not_lt.mp hle) h
  omega

/-- A size is narrowed to zero if its lower half is. -/
theorem toInt_eq_zero_iff {n : Nat} : toInt n = 0 ↔ n % 2 ^ 32 = 0 := by
  unfold toInt
  generalize 2 ^ 32 = m
  have hmod := Int.bmod_emod (x := (n : Int)) (m := m)
  constructor
  · intro h
    rw [h, Int.zero_emod] at hmod
    exact_mod_cast hmod.symm
  · intro h
    exact Int.bmod_eq_zero_of_dvd (by exact_mod_cast Nat.dvd_of_mod_eq_zero h)

theorem toSsizeT_of_lt {n : Nat} (h : n < 2 ^ 63) : toSsizeT n = n :=
  Int.bmod_eq_of_le_mul_two (by omega) (by omega)

/-- The upper half of the sizes is converted to negative ones. -/
theorem toSsizeT_neg {n : Nat} (h : 2 ^ 63 ≤ n) (h' : n < 2 ^ 64) :
    toSsizeT n < 0 := by
  unfold toSsizeT Int.bmod
  simp only []
  split <;> omega

theorem toSizeT_of_lt {n : Nat} (h : n < 2 ^ 64) : toSizeT n = n := by
  rw [toSizeT]
  omega

end TinyWebServer
