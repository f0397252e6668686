import CacheFacade.Proofs.Compact.Varint
import CacheFacade.Proofs.Local.Tally
import CacheFacade.Proofs.Text.Blank

/-!
Counting on from a stored value. The value counts as the integer that the text of its bytes spells,
with white space around it. The plain form and the document of an integer spell that integer. The
compact form is no text of it, but some of its forms are white space with a digit after it, and then
another integer is taken for the one that was stored.
-/

namespace CacheFacade

theorem toOption_eq_some {ε α : Type} {r : Except ε α} {a : α} :
    r.toOption = some a ↔ r = .ok a := by
  cases r <;> simp [Except.toOption]

namespace Local.Cache

/-- What bytes count as is what is read from the characters between the white space of their
text. -/
theorem integerOf_eq_some {bs : Bytes} {m : Int} :
    integerOf bs = some m ↔ ∃ s, Utf8.decode bs = .ok s ∧
      Integer.readChars .i64 (Blank.trimChars s.toList) = .ok m := by
  simp only [integerOf, Option.bind_eq_bind, Option.bind_eq_some_iff, toOption_eq_some,
    Integer.read, Blank.trim, String.toList_ofList]

theorem integerOf_digit {blanks : List Char} {c : Char} (blank : ∀ b ∈ blanks, isBlank b = true)
    (digit : c.isDigit = true) :
    integerOf (Utf8.encode (.ofList (blanks ++ [c]))) = some ((c.toNat - 48 : Nat) : Int) := by
  have none : blanks.dropWhile isBlank = [] := List.dropWhile_eq_nil_iff.mpr blank
  have trimmed : Blank.trimChars (blanks ++ [c]) = [c] := by
    rw [Blank.trimChars_concat blanks (isBlank_of_isDigit digit), none]
    rfl
  refine integerOf_eq_some.mpr ⟨_, Utf8.decode_encode _, ?_⟩
  rw [String.toList_ofList, trimmed, Integer.readChars_digit digit]

theorem integerOf_text {n : Int} (word : IntKind.i64.holds n = true) :
    integerOf (Utf8.encode (Integer.text n)) = some n := by
  have unblank : ∀ c ∈ (Integer.text n).toList, isBlank c = false := by
    intro c member
    rw [Integer.toList_text] at member
    have digit : c ∈ Integer.digits n → isBlank c = false := fun member =>
      isBlank_of_isDigit (Nat.isDigit_of_mem_toDigits (by decide) (by decide) member)
    split at member
    · obtain rfl | member := List.mem_cons.mp member
      · rfl
      · exact digit member
    · exact digit member
  refine integerOf_eq_some.mpr ⟨_, Utf8.decode_encode _, ?_⟩
  rw [Blank.trimChars_of_unblank unblank]
  exact Integer.read_text word

/-- Where only the last character is of ASCII, an integer is read just when that is a digit and
white space stands before it. -/
theorem digit_of_readChars_trimmed {cs : List Char} {c : Char} {m : Int}
    (large : ∀ d ∈ cs, 127 < d.toNat)
    (read : Integer.readChars .i64 (Blank.trimChars (cs ++ [c])) = .ok m) :
    (∀ b ∈ cs, isBlank b = true) ∧ c.isDigit = true ∧ m = (c.toNat - 48 : Nat) := by
  obtain ⟨nonempty, spelled⟩ := Integer.spells_of_readChars read
  have ordinary : ∀ x ∈ Blank.trimChars (cs ++ [c]), x.toNat ≤ 127 ∧ isBlank x = false := by
    intro x member
    obtain rfl | rfl | digit := spelled x member
    · decide
    · decide
    · have bounds := Integer.digit_bounds digit
      exact ⟨by omega, isBlank_of_isDigit digit⟩
  have apart : ∀ x ∈ Blank.trimChars (cs ++ [c]), x ∉ cs := fun x member there =>
    absurd (large x there) (Nat.not_lt.mpr (ordinary x member).1)
  have unblank : isBlank c = false := by
    obtain ⟨x, member⟩ := List.exists_mem_of_ne_nil _ nonempty
    obtain there | here := List.mem_append.mp (Blank.mem_of_mem_trimChars member)
    · exact absurd there (apart x member)
    · exact List.mem_singleton.mp here ▸ (ordinary x member).2
  rw [Blank.trimChars_concat cs unblank] at read apart spelled
  have left : cs.dropWhile isBlank = [] := by
    apply List.eq_nil_iff_forall_not_mem.mpr
    intro x member
    exact apart x (List.mem_append_left _ member) ((List.dropWhile_suffix _).mem member)
  rw [left, List.nil_append] at read spelled
  obtain rfl | rfl | digit := spelled c (List.mem_singleton_self c)
  · cases read
  · cases read
  · rw [Integer.readChars_digit digit] at read
    cases read
    exact ⟨List.dropWhile_eq_nil_iff.mp left, digit, rfl⟩

/-- A number of variable length stands for an integer just when its bytes are the text of a digit
after white space. -/
theorem integerOf_write_iff {n : Nat} {m : Int} :
    integerOf (Varint.write n) = some m ↔
      ∃ blanks c, (∀ b ∈ blanks, isBlank b = true) ∧ c.isDigit = true ∧
        Varint.write n = Utf8.encode (.ofList (blanks ++ [c])) ∧ m = (c.toNat - 48 : Nat) := by
  constructor
  · intro stands
    obtain ⟨front, last, bytes, high, low⟩ := Varint.write_eq_concat n
    obtain ⟨s, decoded, read⟩ := integerOf_eq_some.mp stands
    have encoded := Utf8.encode_of_decode decoded
    obtain ⟨cs, c, chars, -, large⟩ := Utf8.toList_of_encode_concat (encoded.trans bytes) high low
    rw [chars] at read
    obtain ⟨blank, digit, rfl⟩ := digit_of_readChars_trimmed large read
    refine ⟨cs, c, blank, digit, ?_, rfl⟩
    rw [← encoded, ← chars, String.ofList_toList]
  · rintro ⟨blanks, c, blank, digit, bytes, rfl⟩
    rw [bytes, integerOf_digit blank digit]

end Local.Cache

namespace Local

/-- The compact form of a value is the text of a digit after white space, and adding to that digit
does not overflow. -/
def Misread (v delta : Int) : Prop :=
  ∃ blanks c, (∀ b ∈ blanks, isBlank b = true) ∧ c.isDigit = true ∧
    (Codec.described .compact (.int .i64)).encode (.int v) =
      .ok (Utf8.encode (.ofList (blanks ++ [c]))) ∧
    IntKind.i64.holds ((c.toNat - 48 : Nat) + delta) = true

/-- The digit is never the value itself. -/
theorem ne_of_digit {v : Int} {blanks : List Char} {c : Char} (digit : c.isDigit = true)
    (bytes : Varint.write (Varint.fold v) = Utf8.encode (.ofList (blanks ++ [c]))) :
    ((c.toNat - 48 : Nat) : Int) ≠ v := by
  obtain ⟨low, high⟩ := Integer.digit_bounds digit
  rintro rfl
  have fold : Varint.fold ((c.toNat - 48 : Nat) : Int) = 2 * (c.toNat - 48) := by
    rw [Varint.fold, if_pos (Int.natCast_nonneg _), Int.toNat_natCast]
  have last := congrArg List.getLast? bytes
  rw [fold, Varint.write_of_lt (by omega), Utf8.encode_ofList, List.flatMap_append,
    List.flatMap_singleton, Utf8.utf8EncodeChar_of_le (by omega), List.getLast?_concat,
    List.getLast?_singleton] at last
  have same := congrArg UInt8.toNat (Option.some.inj last)
  rw [Utf8.toNat_byte (by omega), Varint.toNat_toUInt8 (by omega)] at same
  omega

namespace Cache

variable {c : Cache} {key : String}

theorem increment_result_of_value {v : Val} {bs : Bytes} (held : c.held key = some (.value v))
    (bytes : c.codec.encode v = .ok bs) (delta : Int) :
    (c.increment key delta).result =
      match integerOf bs with
      | some n =>
        if IntKind.i64.holds (n + delta) then .ok (n + delta)
        else .error (.wrongType s!"increment of {c.keys.qualify key} would overflow")
      | none => .error (notInteger (c.keys.qualify key)) := by
  rw [increment_result, held, Option.elim_some, itemInteger, bytes]
  dsimp only
  cases integerOf bs with
  | none => rfl
  | some n => rfl

theorem held_of_increment (renews : Renews c.touch) {delta n : Int}
    (result : (c.increment key delta).result = .ok n) (room : c.HasRoom key (.counter n)) :
    (c.increment key delta).state.held key = some (.counter n) := by
  obtain ⟨m, answered, state⟩ | ⟨f, refused, -⟩ := c.increment_cases key delta
  · cases result.symm.trans answered
    rw [isSome_lookUp] at state
    rw [state, held_rewrite renews room, if_pos rfl]
    · split <;> trivial
    · intro keep
      by_contra missing
      rw [if_neg missing] at keep
      cases keep
  · rw [result] at refused
    cases refused

end Cache

namespace State

variable {c : Config} {key : String} {past : List Operation} {v delta : Int}

theorem held_of_told {v : Val} (told : ((opened c).history key past).head? = some (.value v))
    (there : ((opened c).after past).cache.finds key = true) :
    ((opened c).after past).cache.held key = some (.value v) := by
  obtain ⟨e, found⟩ := Option.isSome_iff_exists.mp there
  obtain ⟨member, own, live⟩ := Store.mem_of_live? found
  have tells := (vouches_after c key past e member own live).told
  have full := (tidy_after c past).1.filled e member
  rw [Cache.held, found, Option.map_some]
  generalize e.value = item at tells full
  cases item with
  | value w =>
      have same := told.symm.trans tells
      cases same
      rfl
  | counter n =>
      have same := told.symm.trans tells
      cases same
  | hash fields =>
      obtain ⟨f, listed⟩ := List.exists_mem_of_ne_nil fields full
      have wrote := tells.2 f listed
      obtain ⟨rest, shape⟩ := List.head?_eq_some_iff.mp told
      rw [shape, List.find?_cons_of_pos rfl] at wrote
      cases wrote

/-- What an increment of a value that was set should do: it goes on from that value or is refused,
and if it answers, a read finds the answer as long as nothing else happens to the key, or misses. -/
structure CountsOn (c : Config) (past : List Operation) (key : String) (v delta : Int) : Prop where
  added : (((opened c).after past).cache.increment key delta).result = .ok (v + delta) ∨
    ∃ text, (((opened c).after past).cache.increment key delta).result = .error (.wrongType text)
  read : ∀ n, (((opened c).after past).cache.increment key delta).result = .ok n →
    ∀ later w, (opened c).history key (later ++ .act (.increment key delta) :: past) =
        (opened c).history key (.act (.increment key delta) :: past) →
      (((opened c).after (later ++ .act (.increment key delta) :: past)).cache.get key).result =
        .ok (some w) → w = .int n

theorem decode_of_get {n : Int} {w : Val}
    (told : ((opened c).history key past).head? = some (.counter n))
    (read : (((opened c).after past).cache.get key).result = .ok (some w)) :
    (c.codec.decode (Utf8.encode (Integer.text n))).toOption = some w := by
  obtain ⟨value | ⟨m, counted, decoded⟩, -⟩ :=
    (truthful_of_vouches (vouches_after c key past)).value w read
  · rw [told] at value
    cases value
  · rw [told] at counted
    cases counted
    rw [(openedWith_after c past).codec] at decoded
    exact decoded

theorem history_of_increment {n : Int}
    (result : (((opened c).after past).cache.increment key delta).result = .ok n) :
    ((opened c).history key (.act (.increment key delta) :: past)).head? = some (.counter n) := by
  have run : (((opened c).after past).cache.run (.increment key delta)).result =
      .ok (.number n) := by
    change Except.map Reply.number _ = _
    rw [result]
    rfl
  rw [history, effect?, Cache.effect?_of_ok run, Action.effect?, if_pos rfl]
  rfl

theorem countsOn_of_legible {s : Strategy} (legible : s ≠ .compact)
    (codec : c.codec = .described s (.int .i64)) (word : IntKind.i64.holds v = true)
    (held : ((opened c).after past).cache.held key = some (.value (.int v))) :
    CountsOn c past key v delta := by
  have bytes : (Codec.described s (.int .i64)).encode (.int v) =
      .ok (Utf8.encode (Integer.text v)) := by
    cases s with
    | plain | document => rfl
    | compact => exact absurd rfl legible
  rw [← codec, ← (openedWith_after c past).codec] at bytes
  have result := Cache.increment_result_of_value held bytes delta
  rw [Cache.integerOf_text word] at result
  dsimp only at result
  constructor
  · rw [result]
    split
    · exact .inl rfl
    · exact .inr ⟨_, rfl⟩
  · intro n answered later w unchanged read
    have told := history_of_increment answered
    rw [← unchanged] at told
    have decoded := decode_of_get told read
    rw [result] at answered
    split at answered
    case isTrue fits =>
        cases answered
        rw [codec, decode_text legible fits] at decoded
        exact (Option.some.inj decoded).symm
    case isFalse => cases answered

theorem encode_compact (codec : c.codec = .described .compact (.int .i64)) :
    ((opened c).after past).cache.codec.encode (.int v) = .ok (Varint.write (Varint.fold v)) := by
  rw [(openedWith_after c past).codec, codec]
  rfl

/-- The compact form of a value that is the text of a digit is taken for that digit. -/
theorem increment_of_digit (codec : c.codec = .described .compact (.int .i64))
    (held : ((opened c).after past).cache.held key = some (.value (.int v))) {blanks : List Char}
    {d : Char} (blank : ∀ b ∈ blanks, isBlank b = true) (digit : d.isDigit = true)
    (spelled : Varint.write (Varint.fold v) = Utf8.encode (.ofList (blanks ++ [d])))
    (fits : IntKind.i64.holds ((d.toNat - 48 : Nat) + delta) = true) :
    (((opened c).after past).cache.increment key delta).result =
      .ok ((d.toNat - 48 : Nat) + delta) := by
  rw [Cache.increment_result_of_value held (encode_compact codec) delta, spelled,
    Cache.integerOf_digit blank digit]
  exact if_pos fits

/-- In the compact form an increment never counts on from the value; it is refused unless the value
is misread. -/
theorem countsOn_compact_iff (codec : c.codec = .described .compact (.int .i64))
    (held : ((opened c).after past).cache.held key = some (.value (.int v))) :
    CountsOn c past key v delta ↔ ¬ Misread v delta := by
  constructor
  · rintro counts ⟨blanks, d, blank, digit, spelled, fits⟩
    have spelled := Except.ok.inj spelled
    have result := increment_of_digit codec held blank digit spelled fits
    obtain added | ⟨text, refused⟩ := counts.added
    · rw [result] at added
      have same := Except.ok.inj added
      exact ne_of_digit digit spelled (by omega)
    · rw [result] at refused
      cases refused
  · intro sound
    obtain ⟨text, refused⟩ : ∃ text,
        (((opened c).after past).cache.increment key delta).result = .error (.wrongType text) := by
      rw [Cache.increment_result_of_value held (encode_compact codec) delta]
      cases stands : Cache.integerOf (Varint.write (Varint.fold v)) with
      | none => exact ⟨_, rfl⟩
      | some m =>
          obtain ⟨blanks, d, blank, digit, spelled, rfl⟩ := Cache.integerOf_write_iff.mp stands
          dsimp only
          split
          case isTrue fits =>
              exact absurd ⟨blanks, d, blank, digit, congrArg Except.ok spelled, fits⟩ sound
          case isFalse => exact ⟨_, rfl⟩
    refine ⟨.inr ⟨text, refused⟩, fun n answered => ?_⟩
    rw [refused] at answered
    cases answered

/-- After a value was set, and while it is there, an increment counts on from it unless the value is
misread, which happens in the compact form only. -/
theorem countsOn_iff_not_misread (c : Config) {s : Strategy}
    (codec : c.codec = .described s (.int .i64)) (past : List Operation) (key : String) {v : Int}
    (word : IntKind.i64.holds v = true)
    (told : ((opened c).history key past).head? = some (.value (.int v)))
    (there : ((opened c).after past).cache.finds key = true) (delta : Int) :
    CountsOn c past key v delta ↔ ¬ (s = .compact ∧ Misread v delta) := by
  have held := held_of_told told there
  by_cases compact : s = .compact
  · subst compact
    rw [countsOn_compact_iff codec held]
    simp
  · exact iff_of_true (countsOn_of_legible compact codec word held) fun both => compact both.1

/-- A value is set, and nothing else. -/
def stored : List Operation := [.act (.set "k" (.int 24))]

theorem countsOn_of_text :
    CountsOn numbers stored "k" 24 1 ∧
      (((opened numbers).after stored).cache.increment "k" 1).result = .ok 25 := by
  have counts := countsOn_iff_not_misread numbers rfl stored "k" (v := 24) (by decide) rfl rfl 1
  exact ⟨counts.mpr fun both => Strategy.noConfusion both.1, rfl⟩

/-- A cache of integers in the compact form. -/
def packed : Config := .ofCodec "c" (.described .compact (.int .i64))

/-- The compact form of 24 is the text of the digit zero: after an increment by one the sum is one,
and is read as yet another number. -/
theorem not_countsOn_of_packed :
    ¬ CountsOn packed stored "k" 24 1 ∧
      (((opened packed).after stored).cache.increment "k" 1).result = .ok 1 ∧
      (((opened packed).after (.act (.increment "k" 1) :: stored)).cache.get "k").result =
        .ok (some (.int (-25))) := by
  have spelled : Varint.write (Varint.fold 24) = Utf8.encode (.ofList ([] ++ ['0'])) :=
    Varint.write_of_lt (by decide)
  have held : ((opened packed).after stored).cache.held "k" = some (.value (.int 24)) := rfl
  have result : (((opened packed).after stored).cache.increment "k" 1).result = .ok 1 :=
    increment_of_digit rfl held (by simp) rfl spelled rfl
  have room : ((opened packed).after stored).cache.HasRoom "k" (.counter 1) := by
    change _ ≤ _
    decide
  have counted := Cache.held_of_increment (renews_after packed stored) result room
  refine ⟨fun counts => ?_, result, ?_⟩
  · obtain added | ⟨text, refused⟩ := counts.added
    · rw [result] at added
      cases added
    · rw [result] at refused
      cases refused
  · rw [Cache.get_result, (openedWith_after packed _).codec]
    change Except.ok (Cache.valueOf _ (Cache.held (Cache.increment _ "k" 1).state "k")) = _
    rw [counted]
    rfl

end State
end Local
end CacheFacade
