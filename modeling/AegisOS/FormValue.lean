import AegisOS.Lib.Strings

/-! The fields of a form in RustMyAdmin (`rustmyadmin/src/routes/mod.rs`): `form_value` finds the
first field of a name in any serialisation of the fields. -/
namespace AegisOS.FormValue
open Strings List

def hexValue (byte : UInt8) : Option UInt8 :=
  if 48 ≤ byte ∧ byte ≤ 57 then some (byte - 48)
  else if 97 ≤ byte ∧ byte ≤ 102 then some (byte - 97 + 10)
  else if 65 ≤ byte ∧ byte ≤ 70 then some (byte - 65 + 10)
  else none

/-- The bytes that `percent_decode` pushes; a '%' takes the next two bytes with it, also when they
are no digits. -/
def percentBytes : List UInt8 → List UInt8
  | [] => []
  | 37 :: high :: low :: rest =>
    match hexValue high, hexValue low with
    | some h, some l => (h <<< 4 ||| l) :: percentBytes rest
    | _, _ => 37 :: percentBytes rest
  | [37, _] => [37]
  | byte :: rest => (if byte = 43 then 32 else byte) :: percentBytes rest

section
variable (repair : List UInt8 → Text)

/-- `String::from_utf8_lossy`; what becomes of bytes that are no UTF-8 is left open. -/
def fromUtf8Lossy (bytes : List UInt8) : Text := match bytes.toByteArray.utf8Decode? with
  | some chars => chars.toList
  | none => repair bytes

def percentDecode (input : Text) : Text := fromUtf8Lossy repair (percentBytes (utf8 input))

/-- The closure of `form_value`. -/
def pairValue (name pair : Text) : Option Text := (splitOnce '=' pair).bind fun (key, value) =>
    if percentDecode repair key = name then some (percentDecode repair value) else none

def formValue (body name : Text) : Option Text :=
  (body.splitOn '&').findSome? (pairValue repair name)

end

/-! Serialisations. -/

def unreserved : List Char :=
  "ABCDEFGHIJKLMNOPQRSTUVWXYZabcdefghijklmnopqrstuvwxyz0123456789-._~*".toList

def hexDigit (upper : Bool) (n : Nat) : Char :=
  (if upper then "0123456789ABCDEF" else "0123456789abcdef").toList.getD n '0'

inductive Encoded : List UInt8 → Text → Prop
  | nil : Encoded [] []
  | space {bytes s} : Encoded bytes s → Encoded (32 :: bytes) ('+' :: s)
  | unreserved {bytes s c} : c ∈ unreserved → Encoded bytes s →
      Encoded (.ofNat c.toNat :: bytes) (c :: s)
  | escaped {bytes s} (byte : UInt8) (upper upper' : Bool) : Encoded bytes s →
      Encoded (byte :: bytes)
        ('%' :: hexDigit upper (byte.toNat / 16) :: hexDigit upper' (byte.toNat % 16) :: s)

def EncodedPair (pair : Text × Text) (s : Text) : Prop :=
  ∃ key value, Encoded (utf8 pair.1) key ∧ Encoded (utf8 pair.2) value ∧ s = key ++ '=' :: value

def Serialised (pairs : List (Text × Text)) (body : Text) : Prop :=
  ∃ parts, Forall₂ EncodedPair pairs parts ∧ body = intercalate ['&'] parts

variable {repair : List UInt8 → Text} {bytes : List UInt8} {s t name : Text} {pair : Text × Text}

theorem fromUtf8Lossy_utf8 : fromUtf8Lossy repair (utf8 s) = s := by
  have hdecode : (utf8 s).toByteArray.utf8Decode? = some s.toArray := utf8Decode?_utf8Encode
  rw [fromUtf8Lossy, hdecode]

theorem unreserved_spec : ∀ c ∈ unreserved, String.utf8EncodeChar c = [.ofNat c.toNat] ∧
    UInt8.ofNat c.toNat ≠ 37 ∧ UInt8.ofNat c.toNat ≠ 43 ∧ c ≠ '&' ∧ c ≠ '=' := by
  refine forall_iff_forall_mem.mp ?_
  decide +kernel

theorem hexDigit_spec (upper : Bool) {n : Nat} (hn : n < 16) :
    String.utf8EncodeChar (hexDigit upper n) = [.ofNat (hexDigit upper n).toNat] ∧
    hexValue (.ofNat (hexDigit upper n).toNat) = some (.ofNat n) ∧
    hexDigit upper n ≠ '&' ∧ hexDigit upper n ≠ '=' := by
  revert n
  cases upper <;> decide +kernel

theorem nibbles (byte : UInt8) :
    UInt8.ofNat (byte.toNat / 16) <<< 4 ||| UInt8.ofNat (byte.toNat % 16) = byte := by
  have hall : ∀ n < 256, UInt8.ofNat (n / 16) <<< 4 ||| UInt8.ofNat (n % 16) = UInt8.ofNat n := by
    decide +kernel
  exact (hall byte.toNat byte.toNat_lt).trans UInt8.ofNat_toNat

theorem utf8_cons (c : Char) : utf8 (c :: s) = String.utf8EncodeChar c ++ utf8 s := rfl

theorem Encoded.percentBytes (h : Encoded bytes s) : percentBytes (utf8 s) = bytes := by
  induction h with
  | nil => rfl
  | space _ ih => exact congrArg (32 :: ·) ih
  | unreserved hc _ ih =>
    obtain ⟨hutf8, hpercent, hplus, -⟩ := unreserved_spec _ hc
    rw [utf8_cons, hutf8, singleton_append, FormValue.percentBytes, if_neg hplus, ih]
    · exact fun _ _ _ heq => absurd heq hpercent
    · exact fun _ heq => absurd heq hpercent
  | escaped byte upper upper' _ ih =>
    have hbyte := byte.toNat_lt
    obtain ⟨hutf8, hvalue, -⟩ := hexDigit_spec upper (show byte.toNat / 16 < 16 by omega)
    obtain ⟨hutf8', hvalue', -⟩ := hexDigit_spec upper' (show byte.toNat % 16 < 16 by omega)
    have hpercent : String.utf8EncodeChar '%' = [37] := rfl
    rw [utf8_cons, hpercent, utf8_cons, hutf8, utf8_cons, hutf8']
    simp only [cons_append, nil_append, FormValue.percentBytes, hvalue, hvalue', ih, nibbles]

theorem Encoded.percentDecode (h : Encoded (utf8 t) s) : percentDecode repair s = t := by
  rw [FormValue.percentDecode, h.percentBytes, fromUtf8Lossy_utf8]

/-- No separator stands in an encoded string. -/
theorem Encoded.ne_separator (h : Encoded bytes s) : ∀ c ∈ s, c ≠ '&' ∧ c ≠ '=' := by
  induction h with
  | nil => exact fun c hc => (not_mem_nil hc).elim
  | space _ ih => exact forall_mem_cons.mpr ⟨by decide, ih⟩
  | unreserved hc _ ih => exact forall_mem_cons.mpr ⟨(unreserved_spec _ hc).2.2.2, ih⟩
  | escaped byte upper upper' _ ih =>
    have hbyte := byte.toNat_lt
    refine forall_mem_cons.mpr ⟨by decide, forall_mem_cons.mpr ⟨?_, ?_⟩⟩
    · exact (hexDigit_spec upper (by omega)).2.2
    · exact forall_mem_cons.mpr ⟨(hexDigit_spec upper' (by omega)).2.2, ih⟩

theorem splitOnce_append (h : ∀ c ∈ s, c ≠ '=') : splitOnce '=' (s ++ '=' :: t) = some (s, t) := by
  induction s with
  | nil => rfl
  | cons c s ih =>
    obtain ⟨hc, hs⟩ := forall_mem_cons.mp h
    rw [cons_append, splitOnce, if_neg hc, ih hs]
    rfl

theorem EncodedPair.pairValue (h : EncodedPair pair s) :
    pairValue repair name s = if pair.1 = name then some pair.2 else none := by
  obtain ⟨key, value, hkey, hvalue, rfl⟩ := h
  rw [FormValue.pairValue, splitOnce_append fun c hc => (hkey.ne_separator c hc).2]
  simp only [Option.bind_some, hkey.percentDecode, hvalue.percentDecode]

theorem EncodedPair.ne_separator (h : EncodedPair pair s) : '&' ∉ s := by
  obtain ⟨key, value, hkey, hvalue, rfl⟩ := h
  simp only [mem_append, mem_cons, not_or]
  exact ⟨fun hc => (hkey.ne_separator _ hc).1 rfl, by decide,
    fun hc => (hvalue.ne_separator _ hc).1 rfl⟩

theorem findSome?_pairValue {pairs : List (Text × Text)} {parts : List Text}
    (repair : List UInt8 → Text) (name : Text) (h : Forall₂ EncodedPair pairs parts) :
    (∀ part ∈ parts, '&' ∉ part) ∧ parts.findSome? (pairValue repair name) =
      (pairs.find? fun p => p.1 = name).map Prod.snd := by
  induction h with
  | nil => exact ⟨fun part hpart => (not_mem_nil hpart).elim, rfl⟩
  | cons hpair _ ih =>
    refine ⟨forall_mem_cons.mpr ⟨hpair.ne_separator, ih.1⟩, ?_⟩
    rw [findSome?_cons, hpair.pairValue]
    split <;> simp_all

/-- In whatever way the fields of a form are serialised, `form_value` gives the value of the first
field with the name, and nothing if there is none. -/
theorem formValue_serialised (repair : List UInt8 → Text) (pairs : List (Text × Text))
    (body name : Text) (h : Serialised pairs body) :
    formValue repair body name = (pairs.find? fun p => p.1 = name).map Prod.snd := by
  obtain ⟨parts, hparts, rfl⟩ := h
  obtain ⟨hsep, hfind⟩ := findSome?_pairValue repair name hparts
  cases parts with
  | nil =>
    cases hparts
    rfl
  | cons part parts => rw [formValue, splitOn_intercalate _ hsep (cons_ne_nil part parts), hfind]

theorem formValue_a_b : Serialised [(['a'], [' ']), (['a'], ['b'])] "a=+&%61=b".toList ∧
    formValue (fun _ => []) "a=+&%61=b".toList ['a'] = some [' '] := by
  have hone : ∀ c ∈ unreserved, Encoded [.ofNat c.toNat] [c] := fun _ hc => .unreserved hc .nil
  have hform : Serialised [(['a'], [' ']), (['a'], ['b'])] "a=+&%61=b".toList := by
    refine ⟨["a=+".toList, "%61=b".toList], .cons ⟨['a'], ['+'], ?_, .space .nil, rfl⟩
      (.cons ⟨['%', '6', '1'], ['b'], .escaped 97 false false .nil, ?_, rfl⟩ .nil), rfl⟩
    · exact hone 'a' (by decide)
    · exact hone 'b' (by decide)
  exact ⟨hform, formValue_serialised _ _ _ _ hform⟩

end AegisOS.FormValue
