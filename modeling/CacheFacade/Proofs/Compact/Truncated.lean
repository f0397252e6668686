import CacheFacade.Proofs.Compact.Packed

/-!
The compact form when its bytes end too early. A reader that did not run out of bytes makes the same
of more bytes, so it cannot take a value off a part of what it takes in whole: what is cut off is
refused, and no value is written as the beginning of another one.
-/

namespace CacheFacade
namespace Compact

open Reader

variable {α β : Type}

/-- What a reader makes of bytes it makes of them when more follow, unless it ran out of bytes. -/
def Steady (p : Unpack α) : Prop :=
  ∀ bs, p bs ≠ .error .cut → ∀ more, p (bs ++ more) = (p bs).map fun r => (r.1, r.2 ++ more)

namespace Steady

theorem pure (a : α) : Steady (pure a : Unpack α) := fun _ _ _ => rfl

theorem refuse (f : Fault) : Steady (Reader.refuse f : Unpack α) := fun _ _ _ => rfl

theorem bind {p : Unpack α} {f : α → Unpack β} (first : Steady p) (second : ∀ a, Steady (f a)) :
    Steady (p >>= f) := by
  intro bs whole more
  simp only [Bind.bind, StateT.bind, Except.bind] at whole ⊢
  cases front : p bs with
  | error g =>
      rw [front] at whole
      have early : p bs ≠ .error .cut := by
        rw [front]
        exact fun same => whole (congrArg Except.error (Except.error.inj same))
      rw [first bs early more, front]
      rfl
  | ok r =>
      rw [front] at whole
      rw [first bs (by rw [front]; nofun) more, front]
      exact second r.1 r.2 whole more

theorem map (f : α → β) {p : Unpack α} (first : Steady p) : Steady (f <$> p) :=
  first.bind fun a => pure (f a)

/-- Of what a reader takes in whole it takes no part: it runs out of bytes. -/
theorem cut {p : Unpack α} {bs front : Bytes} {a : α} (steady : Steady p) (takes : Takes p bs a)
    (begins : front <+: bs) (part : front ≠ bs) : p front = .error .cut := by
  obtain ⟨left, rfl⟩ := begins
  by_contra whole
  have run : p (front ++ left) = .ok (a, []) := takes.run
  rw [steady front whole left] at run
  cases outcome : p front with
  | error f =>
      rw [outcome] at run
      cases run
  | ok r =>
      rw [outcome] at run
      have none : r.2 ++ left = [] := congrArg (fun x => x.2) (Except.ok.inj run)
      exact part (by simp [List.append_eq_nil_iff.mp none])

end Steady

section Parts

theorem steady_byte : Steady byte := by
  intro bs whole more
  cases bs with
  | nil => exact absurd rfl whole
  | cons b bs => rfl

theorem steady_take (n : Nat) : Steady (take n) := by
  intro bs whole more
  unfold take at whole ⊢
  split at whole
  case isTrue enough =>
    have still : n ≤ (bs ++ more).length := by
      rw [List.length_append]
      omega
    rw [if_pos still, if_pos enough, List.take_append_of_le_length enough,
      List.drop_append_of_le_length enough]
    rfl
  case isFalse => exact absurd rfl whole

theorem readFrom_append {last left weight acc : Nat} {bs : Bytes}
    (whole : Varint.readFrom last left weight acc bs ≠ .error .cut) (more : Bytes) :
    Varint.readFrom last left weight acc (bs ++ more) =
      (Varint.readFrom last left weight acc bs).map fun r => (r.1, r.2 ++ more) := by
  fun_induction Varint.readFrom last left weight acc bs with
  | case1 => rfl
  | case2 => exact absurd rfl whole
  | case3 left weight acc b bs n short =>
      rw [List.cons_append, Varint.readFrom, if_pos short, if_pos ‹_›]
      rfl
  | case4 left weight acc b bs n short =>
      rw [List.cons_append, Varint.readFrom, if_pos short, if_neg ‹_›]
      rfl
  | case5 left weight acc b bs n long ih =>
      rw [List.cons_append, Varint.readFrom, if_neg long]
      exact ih whole

theorem steady_varint (bits : Nat) : Steady (varint bits) := by
  intro bs whole more
  unfold varint Varint.read at whole ⊢
  cases outcome : Varint.readFrom (Varint.Shape.ofBits bits).last
      (Varint.Shape.ofBits bits).size 1 0 bs with
  | ok r =>
      rw [readFrom_append (by rw [outcome]; nofun), outcome]
      rfl
  | error f =>
      rw [outcome] at whole
      cases f with
      | cut => exact absurd rfl whole
      | endless =>
          rw [readFrom_append (by rw [outcome]; nofun), outcome]
          rfl

theorem steady_bool : Steady bool := by
  refine steady_byte.bind fun b => ?_
  split
  · exact .pure _
  · exact .pure _
  · exact .refuse _

theorem steady_int (k : IntKind) : Steady (int k) := by
  unfold int
  split
  · exact steady_byte.bind fun _ => .pure _
  · exact (steady_varint _).bind fun _ => .pure _

theorem steady_fixed (size : Nat) : Steady (fixed size) := (steady_take size).bind fun _ => .pure _

theorem steady_bytes : Steady bytes := (steady_varint 64).bind steady_take

theorem steady_text : Steady text := by
  refine steady_bytes.bind fun bs => ?_
  split
  · exact .pure _
  · exact .refuse _

theorem steady_char : Steady char := by
  refine (steady_varint 64).bind fun n => ?_
  split
  · exact .refuse _
  · refine (steady_take n).bind fun bs => ?_
    split
    · exact .refuse _
    · split
      · exact .pure _
      · exact .refuse _

theorem steady_option (absent : α) {present : Unpack α} (steady : Steady present) :
    Steady (option absent present) := by
  refine steady_byte.bind fun b => ?_
  split
  · exact .pure _
  · exact steady
  · exact .refuse _

theorem steady_items {item : Unpack α} (steady : Steady item) (n : Nat) :
    Steady (items item n) := by
  induction n with
  | zero => exact .pure _
  | succ n ih => exact steady.bind fun _ => ih.bind fun _ => .pure _

theorem steady_counted {item : Unpack α} (steady : Steady item) : Steady (counted item) :=
  (steady_varint 64).bind (steady_items steady)

theorem steady_pair {first : Unpack α} {second : Unpack β} (front : Steady first)
    (back : Steady second) : Steady (pair first second) :=
  front.bind fun _ => back.bind fun _ => .pure _

theorem steady_inOrder {ps : List (Unpack Val)} (each : ∀ p ∈ ps, Steady p) :
    Steady (inOrder ps) := by
  induction ps with
  | nil => exact .pure _
  | cons p ps ih =>
      obtain ⟨head, tail⟩ := List.forall_mem_cons.mp each
      exact head.bind fun _ => (ih tail).bind fun _ => .pure _

theorem steady_noItems (empty : α) (n : Nat) : Steady (noItems empty n) := by
  unfold noItems
  split
  · exact .pure _
  · exact .refuse _

theorem steady_probe (r : Request) : Steady (probe r) := by
  cases r with
  | bool => exact steady_bool.bind fun _ => .pure _
  | char => exact steady_char.bind fun _ => .pure _
  | text => exact steady_text.bind fun _ => .pure _
  | bytes => exact steady_bytes.bind fun _ => .pure _
  | option => exact steady_option _ (.refuse _)
  | unit => exact .pure _
  | list | map => exact (steady_varint 64).bind fun n => steady_noItems _ n
  | tuple n | record n => exact steady_noItems _ n
  | any | identifier | wrapper | ignored => exact .refuse _

theorem steady_openRecord (fields : List (FieldSpec × Ty)) (name : String) :
    Steady (Reader.read (.openRecord name fields)) := by
  rw [Reader.read]
  refine (steady_varint 64).bind fun n => ?_
  split
  · exact .refuse _
  · split
    · exact .pure _
    · exact .refuse _

theorem steady_even : Steady (Reader.read .even) := by
  rw [Reader.read]
  refine (steady_int .i64).bind fun n => ?_
  split
  · exact .pure _
  · exact .refuse _

end Parts

mutual

/-- Every type is read steadily. -/
theorem steady_read : (t : Ty) → Steady (Reader.read t)
  | .bool => steady_bool.bind fun _ => .pure _
  | .int k => (steady_int k).bind fun _ => .pure _
  | .f32 => (steady_fixed 4).bind fun _ => .pure _
  | .f64 => (steady_fixed 8).bind fun _ => .pure _
  | .char => steady_char.bind fun _ => .pure _
  | .text => steady_text.bind fun _ => .pure _
  | .bytes => steady_bytes.bind fun _ => .pure _
  | .unit | .unitNamed _ | .bareNone => .pure _
  | .option t => steady_option _ ((steady_read t).map _)
  | .list t => (steady_counted (steady_read t)).map _
  | .tuple ts | .tupleNamed _ ts => (steady_inOrder (steady_readers ts)).map _
  | .map k t => (steady_counted (steady_pair (steady_read k) (steady_read t))).bind fun _ => .pure _
  | .wrapper _ t => steady_read t
  | .record _ _ fields => (steady_inOrder (steady_fieldReaders fields)).map _
  | .openRecord name fields => steady_openRecord fields name
  | .choice _ variants => by
      rw [Reader.read]
      refine (steady_varint 32).bind fun i => ?_
      split
      case h_1 p here => exact (steady_bodyReaders variants p (List.mem_of_getElem? here)).map _
      case h_2 => exact .refuse _
  | .even => steady_even
  | .probe r => (steady_probe r).bind fun _ => .pure _
  | .tagged _ _ _ | .untagged _ _ | .document => .refuse _

theorem steady_readers : (ts : List Ty) → ∀ p ∈ Reader.readers ts, Steady p
  | [] => nofun
  | t :: ts => List.forall_mem_cons.mpr ⟨steady_read t, steady_readers ts⟩

theorem steady_fieldReaders :
    (fields : List (FieldSpec × Ty)) → ∀ p ∈ Reader.fieldReaders fields, Steady p
  | [] => nofun
  | (_, t) :: fields => List.forall_mem_cons.mpr ⟨steady_read t, steady_fieldReaders fields⟩

theorem steady_bodyReaders :
    (variants : List (String × Body)) → ∀ p ∈ Reader.bodyReaders variants, Steady p
  | [] => nofun
  | (_, body) :: rest => List.forall_mem_cons.mpr ⟨steady_readBody body, steady_bodyReaders rest⟩

theorem steady_readBody : (body : Body) → Steady (Reader.readBody body)
  | .unit => .pure _
  | .wrap t => steady_read t
  | .tuple ts => (steady_inOrder (steady_readers ts)).map _
  | .record fields => (steady_inOrder (steady_fieldReaders fields)).map _

end

/-- A value that is cut off anywhere is refused for want of bytes, so no value is written as the
beginning of another one. -/
theorem cut_off_refused {t : Ty} {v : Val} (packed : IsPacked t) (inhabits : Inhabits t v) :
    ∃ bs, (Codec.described .compact t).encode v = .ok bs ∧
      (∀ front, front <+: bs → front ≠ bs →
        (Codec.described .compact t).decode front = .error (.compact .cut)) ∧
      ∀ w, Inhabits t w → ∀ front, (Codec.described .compact t).encode w = .ok front →
        front <+: bs → w = v := by
  obtain ⟨bs, write, takes⟩ := packs packed inhabits
  have refused : ∀ front, front <+: bs → front ≠ bs →
      (Codec.described .compact t).decode front = .error (.compact .cut) := by
    intro front begins part
    have ended : (Reader.read t).run front = .error .cut := (steady_read t).cut takes begins part
    rw [Codec.decode, Compact.read, ended]
    rfl
  refine ⟨bs, Plain.ok_of_mapError.mpr write, refused, ?_⟩
  intro w other front written begins
  obtain ⟨_, written', returned⟩ := compact_returns packed other
  obtain rfl := Except.ok.inj (written.symm.trans written')
  by_cases same : front = bs
  · subst same
    have whole : (Codec.described .compact t).decode front = .ok v := by
      rw [Codec.decode, Compact.read, takes.run]
      rfl
    exact Except.ok.inj (returned.symm.trans whole)
  · cases returned.symm.trans (refused front begins same)

/-- An integer of two bytes behind two marks of presence, cut off within the integer. -/
theorem cut_off_refused_within_integer :
    Inhabits (.option (.option Catalogue.i64)) (.some (.some (.int 300))) ∧
      (Codec.described .compact (.option (.option Catalogue.i64))).encode
        (.some (.some (.int 300))) = .ok [1, 1, 216, 4] ∧
      (Codec.described .compact (.option (.option Catalogue.i64))).decode [1, 1, 216] =
        .error (.compact .cut) := by
  have inhabits : Inhabits (.option (.option Catalogue.i64)) (.some (.some (.int 300))) :=
    .some (.some (.int (by decide)))
  have write : Varint.write 600 = [216, 4] := by simp [Varint.write]
  have encoded : (Codec.described .compact (.option (.option Catalogue.i64))).encode
      (.some (.some (.int 300))) = .ok [1, 1, 216, 4] := by
    change Except.ok (1 :: 1 :: Varint.write 600) = _
    rw [write]
  refine ⟨inhabits, encoded, ?_⟩
  obtain ⟨bs, written, refused, -⟩ := cut_off_refused (.option (.option (.int _))) inhabits
  obtain rfl := Except.ok.inj (encoded.symm.trans written)
  exact refused [1, 1, 216] (by decide) (by decide)

end Compact
end CacheFacade
