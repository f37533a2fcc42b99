import Realm.Text.Quoted

/-!
# Accounts

A player account. Its password can be checked but is never shown.
-/

namespace Realm

structure AccountId where
  number : UInt64
  deriving DecidableEq, Repr, Inhabited

structure Account where
  id : AccountId
  username : String
  password : String
  deriving DecidableEq, Repr, Inhabited

def Account.accepts (a : Account) (candidate : String) : Bool := a.password = candidate

def Account.display (a : Account) : String :=
  s!"Account \x7b id: AccountId({a.id.number}), username: {Text.quoted a.username}, .. \x7d"

end Realm
