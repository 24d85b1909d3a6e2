import Mathlib.Data.List.DropRight
import Mathlib.Tactic
set_option autoImplicit false

namespace Betsphere

/-- A string as its Unicode scalar values. -/
abbrev Text := List Char

instance : LawfulBEq Text := inferInstance

abbrev Uuid := BitVec 128

/-- Microseconds since the epoch. -/
abbrev DateTime := Int

def hexDigit (n : Nat) : Char := Nat.digitChar (n % 16)

def hexDigits : (width : Nat) → Nat → List Char
  | 0, _ => []
  | width + 1, n => hexDigits width (n / 16) ++ [hexDigit n]

/-- The hyphenated form of a UUID. -/
def displayUuid (id : Uuid) : String :=
  let digits := hexDigits 32 id.toNat
  String.ofList (digits.take 8 ++ ['-'] ++ (digits.drop 8).take 4 ++ ['-'] ++
    (digits.drop 12).take 4 ++ ['-'] ++ (digits.drop 16).take 4 ++ ['-'] ++ digits.drop 20)

structure UserId where
  uuid : Uuid
  deriving DecidableEq

structure MarketId where
  uuid : Uuid
  deriving DecidableEq

structure OutcomeId where
  uuid : Uuid
  deriving DecidableEq

structure BetId where
  uuid : Uuid
  deriving DecidableEq

instance : ToString UserId := ⟨fun id => displayUuid id.uuid⟩
instance : ToString MarketId := ⟨fun id => displayUuid id.uuid⟩
instance : ToString OutcomeId := ⟨fun id => displayUuid id.uuid⟩
instance : ToString BetId := ⟨fun id => displayUuid id.uuid⟩

inductive DomainError where
  | validation : String → DomainError
  | ruleViolation : String → DomainError
  deriving DecidableEq, Repr

def DomainError.message : DomainError → String
  | .validation msg => "validation failed: " ++ msg
  | .ruleViolation msg => "business rule violated: " ++ msg

inductive RepositoryError where
  | conflict : String → RepositoryError
  | storage : String → RepositoryError
  deriving DecidableEq, Repr

inductive ApplicationError where
  | domain : DomainError → ApplicationError
  | notFound : String → ApplicationError
  | conflict : String → ApplicationError
  | unauthorized : String → ApplicationError
  | forbidden : String → ApplicationError
  | internal : String → ApplicationError
  deriving DecidableEq, Repr

def ApplicationError.ofRepository : RepositoryError → ApplicationError
  | .conflict msg => .conflict msg
  | .storage msg => .internal msg

/-- The code points with the Unicode property White_Space, which `trim` removes. -/
def isWhitespace (c : Char) : Bool :=
  let n := c.toNat
  (9 ≤ n && n ≤ 13) || n = 32 || n = 133 || n = 160 || n = 5760 ||
    (8192 ≤ n && n ≤ 8202) || n = 8232 || n = 8233 || n = 8239 || n = 8287 || n = 12288

def trim (s : Text) : Text := (s.dropWhile isWhitespace).rdropWhile isWhitespace

theorem dropWhile_initial {p : Char → Bool} {l m : Text} (hm : m <+: l)
    (hl : l.dropWhile p = l) : m.dropWhile p = m := by
  cases m with
  | nil => rfl
  | cons c m =>
    obtain ⟨rest, rfl⟩ := hm
    have hc : ¬p c = true := by
      have := List.dropWhile_eq_self_iff.mp hl (by simp)
      simpa using this
    simp [hc]

theorem mem_of_mem_trim {s : Text} {c : Char} (h : c ∈ trim s) : c ∈ s :=
  (List.dropWhile_suffix _).mem ((List.rdropWhile_prefix _ _).mem h)

theorem trim_trim (s : Text) : trim (trim s) = trim s := by
  unfold trim
  have hpre := List.rdropWhile_prefix isWhitespace (s.dropWhile isWhitespace)
  rw [dropWhile_initial hpre (List.dropWhile_idempotent isWhitespace s)]
  exact List.rdropWhile_idempotent isWhitespace _

/-- Text that a validating constructor accepted: trimmed, not empty, not too long. -/
structure BoundedText (maxChars : Nat) where
  value : Text
  nonempty : value ≠ []
  short : value.length ≤ maxChars
  trimmed : trim value = value
  deriving DecidableEq

def BoundedText.new (maxChars : Nat) (empty long : String) (value : Text) :
    Except DomainError (BoundedText maxChars) :=
  if h : trim value = [] then .error (.validation empty)
  else if hlong : (trim value).length ≤ maxChars then
    .ok ⟨trim value, h, hlong, trim_trim value⟩
  else .error (.validation long)

abbrev MarketTitle := BoundedText 200

def MarketTitle.new (value : Text) : Except DomainError MarketTitle :=
  BoundedText.new 200 "title must not be empty" "title must be at most 200 characters" value

abbrev OutcomeLabel := BoundedText 100

def OutcomeLabel.new (value : Text) : Except DomainError OutcomeLabel :=
  BoundedText.new 100 "outcome label must not be empty"
    "outcome label must be at most 100 characters" value

/-- An outcome price in ten-thousandths; a value outside 0.0000 to 1.0000 has no `Price`. -/
structure Price where
  tenThousandths : Int
  inRange : 0 ≤ tenThousandths ∧ tenThousandths ≤ 10000
  deriving DecidableEq

namespace Price

def scale : Int := 10000
def one : Price := ⟨10000, by decide⟩
def zero : Price := ⟨0, by decide⟩
def minTick : Price := ⟨1, by decide⟩

def fromTenThousandths (value : Int) : Except DomainError Price :=
  if h : 0 ≤ value ∧ value ≤ 10000 then .ok ⟨value, h⟩
  else .error (.validation "price must be between 0 and 10000 ten-thousandths")

/-- `Ord::max`. -/
def max (a b : Price) : Price := if a.tenThousandths ≤ b.tenThousandths then b else a

theorem eq_of_tenThousandths {a b : Price} (h : a.tenThousandths = b.tenThousandths) : a = b := by
  cases a; cases b; cases h; rfl

theorem fromTenThousandths_of_inRange {value : Int} (h : 0 ≤ value ∧ value ≤ 10000) :
    fromTenThousandths value = .ok ⟨value, h⟩ := by simp [fromTenThousandths, h]

end Price

inductive Role where
  | user | admin
  deriving DecidableEq, Repr

def canManageMarkets (role : Role) : Bool := role = .admin

def Username.allowed (c : Char) : Bool :=
  ('a' ≤ c && c ≤ 'z') || ('A' ≤ c && c ≤ 'Z') || ('0' ≤ c && c ≤ '9') || c = '_' || c = '-'

structure Username where
  value : Text
  length : 3 ≤ value.length ∧ value.length ≤ 32
  chars : value.all Username.allowed = true
  deriving DecidableEq

def Username.new (value : Text) : Except DomainError Username :=
  if h : 3 ≤ value.length ∧ value.length ≤ 32 then
    if hc : value.all Username.allowed = true then .ok ⟨value, h, hc⟩
    else .error (.validation "username may only contain letters, digits, '_' and '-'")
  else .error (.validation "username must be 3-32 characters")

structure Email where
  value : Text
  deriving DecidableEq

structure PasswordHash where
  value : Text
  deriving DecidableEq

structure Actor where
  userId : UserId
  role : Role
  deriving DecidableEq

end Betsphere
