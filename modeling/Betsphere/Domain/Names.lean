import Betsphere.Domain.Entities
set_option autoImplicit false

namespace Betsphere

/-- `FromStr` by a table of names; `what` stands in the error of an unknown one. -/
def fromName {α : Type} (what : String) (names : List (Text × α)) (s : Text) :
    Except DomainError α :=
  match names.find? fun n => n.1 = s with
  | some n => .ok n.2
  | none => .error (.validation ("unknown " ++ what ++ ": " ++ String.ofList s))

def BetStatus.asStr : BetStatus → Text
  | .active => "active".toList
  | .won => "won".toList
  | .lost => "lost".toList
  | .refunded => "refunded".toList

def BetStatus.fromStr (s : Text) : Except DomainError BetStatus :=
  fromName "bet status" [("active".toList, .active), ("won".toList, .won),
    ("lost".toList, .lost), ("refunded".toList, .refunded)] s

def MarketStatus.asStr : MarketStatus → Text
  | .opened => "open".toList
  | .closed => "closed".toList
  | .resolved => "resolved".toList

def MarketStatus.fromStr (s : Text) : Except DomainError MarketStatus :=
  fromName "market status" [("open".toList, .opened), ("closed".toList, .closed),
    ("resolved".toList, .resolved)] s

def Role.asStr : Role → Text
  | .user => "user".toList
  | .admin => "admin".toList

def Role.fromStr (s : Text) : Except DomainError Role :=
  fromName "role" [("user".toList, .user), ("admin".toList, .admin)] s

theorem BetStatus.fromStr_asStr (status : BetStatus) : fromStr status.asStr = .ok status := by
  cases status <;> rfl

theorem MarketStatus.fromStr_asStr (status : MarketStatus) : fromStr status.asStr = .ok status := by
  cases status <;> rfl

theorem Role.fromStr_asStr (role : Role) : fromStr role.asStr = .ok role := by
  cases role <;> rfl

end Betsphere
