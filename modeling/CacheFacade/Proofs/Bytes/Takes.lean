import CacheFacade.Bytes

/-!
Readers of bytes that take a value off the front. What a reader takes does not depend on the bytes
behind, so readers one after the other take what stands one behind the other.
-/

namespace CacheFacade

variable {ε α β : Type}

/-- Whatever stands behind the bytes, the reader takes exactly them off the front, as a value. -/
def Takes (p : StateT Bytes (Except ε) α) (bs : Bytes) (a : α) : Prop :=
  ∀ rest, p (bs ++ rest) = .ok (a, rest)

namespace Takes

variable {p : StateT Bytes (Except ε) α} {bs cs : Bytes} {a : α} {b : β}

theorem done (a : α) : Takes (pure a : StateT Bytes (Except ε) α) [] a := fun _ => rfl

theorem bind {f : α → StateT Bytes (Except ε) β} (first : Takes p bs a)
    (second : Takes (f a) cs b) : Takes (p >>= f) (bs ++ cs) b := by
  intro rest
  have front := first (cs ++ rest)
  rw [List.append_assoc]
  simp only [Bind.bind, StateT.bind, Except.bind, front]
  exact second rest

/-- What follows looks at no more bytes. -/
theorem finish {f : α → StateT Bytes (Except ε) β} (first : Takes p bs a)
    (second : Takes (f a) [] b) : Takes (p >>= f) bs b := by
  simpa using first.bind second

theorem map (f : α → β) (first : Takes p bs a) : Takes (f <$> p) bs (f a) := by
  intro rest
  simp only [Functor.map, StateT.map, Bind.bind, Except.bind, first rest]
  rfl

theorem run (whole : Takes p bs a) : p.run bs = .ok (a, []) := by
  have all := whole []
  rwa [List.append_nil] at all

end Takes
end CacheFacade
