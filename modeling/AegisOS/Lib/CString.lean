import Mathlib.Data.List.TakeWhile
import AegisOS.Lib.ByteStore

/-! NUL-terminated strings and the fixed-size character arrays that hold them. -/
namespace AegisOS.CString
open ByteStore List

/-- The characters of a C string before its terminating NUL. -/
@[ext] structure CStr where
  bytes : List UInt8
  nonzero : ∀ c ∈ bytes, c ≠ 0
  deriving DecidableEq

/-- A string that fits an array of `n` characters together with its terminator. -/
@[ext] structure CArray (n : Nat) where
  str : CStr
  fits : str.bytes.length < n
  deriving DecidableEq

def CStr.empty : CStr := ⟨[], by simp⟩

/-- The first `k` characters. -/
def CStr.truncate (s : CStr) (k : Nat) : CStr :=
  ⟨s.bytes.take k, fun c hc => s.nonzero c (mem_of_mem_take hc)⟩

/-- A bounded string copy into an array of `n + 1` characters: at most `n` characters and
a terminator. -/
def strcopy {n : Nat} (s : CStr) : CArray (n + 1) := ⟨s.truncate n, by simp [CStr.truncate]⟩

/-- The array's bytes when it was zero before the string was copied in. -/
def CArray.field {n : Nat} (a : CArray n) : Bytes n :=
  ⟨a.str.bytes ++ replicate (n - a.str.bytes.length) 0, by
    have := a.fits
    simp
    omega⟩

/-- The string at the start of raw bytes. -/
def ofBytes (bs : List UInt8) : CStr :=
  ⟨bs.takeWhile (· ≠ 0), fun c hc => by simpa using mem_takeWhile_imp hc⟩

/-- A string literal of the source. -/
def cstr (s : String) : CStr := ofBytes (s.toList.map fun c => UInt8.ofNat c.toNat)

theorem takeWhile_nonzero_append_zeros {s : List UInt8} (h : ∀ c ∈ s, c ≠ 0) (k : Nat) :
    (s ++ replicate k 0).takeWhile (· ≠ 0) = s := by
  induction s with
  | nil => cases k <;> simp [replicate_succ]
  | cons c s ih =>
    have hc : c ≠ 0 := h c mem_cons_self
    have hs := ih fun d hd => h d (mem_cons_of_mem c hd)
    simpa [hc] using hs

/-- A zero-padded array holds the string it was filled from. -/
@[simp] theorem ofBytes_field {n : Nat} (a : CArray n) : ofBytes a.field.val = a.str := by
  ext1
  exact takeWhile_nonzero_append_zeros a.str.nonzero _

theorem strcopy_str {n : Nat} (a : CArray (n + 1)) : strcopy a.str = a := by
  have := a.fits
  ext1
  ext1
  exact take_of_length_le (by omega)

end AegisOS.CString
