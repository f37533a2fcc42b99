/-!
# Entity handles

An entity is addressed by its identity and the generation the identity was issued under.
Identities are reused, so a handle kept beyond the life of its entity differs from the handle of
the next occupant by its generation.
-/

namespace Realm

structure Handle where
  id : UInt32
  generation : UInt32
  deriving DecidableEq, Repr, Inhabited

def Handle.display (h : Handle) : String := s!"#{h.id}.{h.generation}"

end Realm
