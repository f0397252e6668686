import CacheFacade.Proofs.Local.Hashes

/-!
The removal of several keys at once. Each is counted if something stands under it when its turn
comes, so one that is named again counts once; but one past its deadline counts, too, until the
timer has turned. The other keys stay as they are.
-/

namespace CacheFacade
namespace Local
namespace Cache

variable {c : Cache} {key : String}

/-- The key has an entry whose deadline has not come. -/
def isLive (c : Cache) (key : String) : Bool :=
  c.store.entries.any fun e => e.key == c.keys.qualify key && e.isLive c.now

end Cache

namespace State

example :
    (((opened (.ofCodec "users" (.described .plain .text))).after
      [.act (.fieldSet "bob" "role" (.text "guest")),
        .act (.set "alice" (.text "admin"))]).cache.deleteAll
          ["bob", "carol", "alice", "bob"]).result = .ok 2 := by
  rfl

end State
end Local
end CacheFacade
