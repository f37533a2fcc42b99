import Realm.Text.Quoted

/-!
# Topics

A topic is a named channel that mail is published on.
-/

namespace Realm

structure Topic where
  name : String
  deriving DecidableEq, Repr, Inhabited

namespace Topic

def login : Topic := ⟨"auth.login"⟩

/-- Accepted logins, for the simulation. -/
def authenticated : Topic := ⟨"auth.events"⟩

def commands : Topic := ⟨"world.commands"⟩

def chat : Topic := ⟨"world.chat"⟩

def le (a b : Topic) : Bool := a.name ≤ b.name

def display (t : Topic) : String := "Topic(" ++ Text.quoted t.name ++ ")"

end Topic

end Realm
