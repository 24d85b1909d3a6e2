import Betsphere.Domain.Values
set_option autoImplicit false

namespace Betsphere

def hexValue (c : Char) : Option Nat :=
  if '0' ≤ c ∧ c ≤ '9' then some (c.toNat - '0'.toNat)
  else if 'a' ≤ c ∧ c ≤ 'f' then some (c.toNat - 'a'.toNat + 10)
  else if 'A' ≤ c ∧ c ≤ 'F' then some (c.toNat - 'A'.toNat + 10)
  else none

def pushHex (value : Option Nat) (c : Char) : Option Nat := do
  let high ← value
  let low ← hexValue c
  some (16 * high + low)

/-- The digits of a text with hyphens in their four places. -/
def hyphenated (s : Text) : Option (List Char) :=
  if s.length = 36 ∧ s[8]? = some '-' ∧ s[13]? = some '-' ∧ s[18]? = some '-' ∧
      s[23]? = some '-' then
    some (s.take 8 ++ (s.drop 9).take 4 ++ (s.drop 14).take 4 ++ (s.drop 19).take 4 ++ s.drop 24)
  else none

def readUuid (s : Text) : Option Uuid := do
  let digits ← hyphenated s
  let value ← digits.foldl pushHex (some 0)
  some (BitVec.ofNat 128 value)

theorem hexValue_hexDigit (n : Nat) : hexValue (hexDigit n) = some (n % 16) := by
  have hall : ∀ d < 16, hexValue (Nat.digitChar d) = some d := by decide
  exact hall (n % 16) (Nat.mod_lt n (by decide))

theorem length_hexDigits (width n : Nat) : (hexDigits width n).length = width := by
  induction width generalizing n with
  | zero => rfl
  | succ width ih => rw [hexDigits, List.length_append, ih, List.length_singleton]

theorem foldl_hexDigits (width n a : Nat) :
    (hexDigits width n).foldl pushHex (some a) = some (a * 16 ^ width + n % 16 ^ width) := by
  induction width generalizing n with
  | zero => simp [hexDigits, Nat.mod_one]
  | succ width ih =>
    rw [hexDigits, List.foldl_append, ih, List.foldl_cons, List.foldl_nil, pushHex,
      hexValue_hexDigit]
    have hmod : n % 16 ^ (width + 1) = n % 16 + 16 * (n / 16 % 16 ^ width) := by
      rw [pow_succ', Nat.mod_mul]
    simp only [bind, Option.bind, Option.some.injEq]
    rw [hmod, pow_succ]
    ring

theorem hyphenated_groups {a b c d e : List Char} (ha : a.length = 8) (hb : b.length = 4)
    (hc : c.length = 4) (hd : d.length = 4) (he : e.length = 12) :
    hyphenated (a ++ ['-'] ++ b ++ ['-'] ++ c ++ ['-'] ++ d ++ ['-'] ++ e) =
      some (a ++ b ++ c ++ d ++ e) := by
  unfold hyphenated
  rw [if_pos]
  · have hpast : ∀ {l : List Char} {n : Nat}, l.length ≤ n → l.drop n = [] :=
      List.drop_eq_nil_of_le
    simp (disch := omega) [List.drop_append, hpast, ha, hb, hc, hd]
  · simp [ha, hb, hc, hd, he]

theorem readUuid_displayUuid (id : Uuid) : readUuid (displayUuid id).toList = some id := by
  have hlen := length_hexDigits 32 id.toNat
  have hvalue := foldl_hexDigits 32 id.toNat 0
  have hsmall : id.toNat % 16 ^ 32 = id.toNat := Nat.mod_eq_of_lt id.isLt
  rw [readUuid, displayUuid, String.toList_ofList]
  generalize hexDigits 32 id.toNat = digits at hlen hvalue
  have hgroups := hyphenated_groups (a := digits.take 8) (b := (digits.drop 8).take 4)
    (c := (digits.drop 12).take 4) (d := (digits.drop 16).take 4) (e := digits.drop 20)
    (by simp [hlen]) (by simp [hlen]) (by simp [hlen]) (by simp [hlen]) (by simp [hlen])
  have hall : digits.take 8 ++ (digits.drop 8).take 4 ++ (digits.drop 12).take 4 ++
      (digits.drop 16).take 4 ++ digits.drop 20 = digits := by
    have hstep : ∀ n k, digits.take n ++ (digits.drop n).take k = digits.take (n + k) :=
      fun n k => List.take_add.symm
    rw [hstep, hstep, hstep]
    exact List.take_append_drop 20 digits
  rw [hgroups, hall]
  simp only [bind, Option.bind, hvalue, hsmall, zero_mul, zero_add]
  rw [BitVec.ofNat_toNat, BitVec.setWidth_eq]

end Betsphere
