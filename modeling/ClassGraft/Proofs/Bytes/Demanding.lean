import ClassGraft.Proofs.Bytes.Rereading

/-!
# Readers that need all that they take

`Reader.Needs` says that a reader takes exactly some bytes, and that input that ends within them is
reported as truncated: nothing that the reader finds in the first of them makes it stop with another
fault, or succeed.  Readers that run one after the other need their bytes if each of them does
(`Reader.Needs.bind`), so this is so of numbers, lists, and records of them (`Reader.Demands`).

A reader that ends where the bytes have to end also refuses bytes that follow (`Reader.Closes`).
-/

namespace ClassGraft.Reader

variable {α β : Type} {offset : Nat} {bytes more : Bytes} {a : α} {b : β}

/-! ### Truncated input -/

/-- Whether the reader stops because there are too few bytes. -/
def Stops (reader : Reader α) (cursor : Cursor) : Prop :=
  ∃ start needed available, reader cursor = .error (.truncated start needed available)

theorem Stops.bind {x : Reader α} {cursor : Cursor} (h : x.Stops cursor) (f : α → Reader β) :
    (x >>= f).Stops cursor := by
  obtain ⟨start, needed, available, h⟩ := h
  refine ⟨start, needed, available, ?_⟩
  show (x cursor >>= fun (a, next) => f a next) = _
  rw [h]
  rfl

theorem Stops.bind_of_eq_ok {x : Reader α} {f : α → Reader β} {cursor next : Cursor}
    (hx : x cursor = .ok (a, next)) (hf : (f a).Stops next) : (x >>= f).Stops cursor := by
  obtain ⟨start, needed, available, h⟩ := hf
  exact ⟨start, needed, available, (Reader.bind_of_eq_ok hx).trans h⟩

/-! ### Bytes that are needed -/

/-- Whether the reader takes exactly the bytes at an offset, and misses those that are cut off. -/
structure Needs (reader : Reader α) (offset : Nat) (bytes : Bytes) (value : α) : Prop where
  takes : reader.Takes offset bytes value
  stops : ∀ part lost, part ++ lost = bytes → lost ≠ [] → reader.Stops ⟨part, offset⟩

/-- A reader that takes nothing misses nothing. -/
theorem needs_nil {reader : Reader α} (h : reader.Takes offset [] a) :
    reader.Needs offset [] a :=
  ⟨h, fun _ _ hparts hlost => absurd (List.append_eq_nil_iff.mp hparts).2 hlost⟩

/-- Input that ends in the bytes of one of two readers is too short for both. -/
theorem Needs.stops_bind {x : Reader α} {f : α → Reader β} (hx : x.Needs offset bytes a)
    (hf : ∀ part lost, part ++ lost = more → lost ≠ [] →
      (f a).Stops ⟨part, offset + bytes.length⟩) :
    ∀ part lost, part ++ lost = bytes ++ more → lost ≠ [] → (x >>= f).Stops ⟨part, offset⟩ := by
  intro part lost hparts hlost
  rcases List.append_eq_append_iff.mp hparts with ⟨missed, rfl, hlater⟩ | ⟨found, rfl, hlater⟩
  · by_cases hmissed : missed = []
    · subst hmissed
      rw [List.append_nil] at hx hf
      have hread := hx.takes []
      rw [List.append_nil] at hread
      exact .bind_of_eq_ok hread (hf [] lost hlater hlost)
    · exact (hx.stops part missed rfl hmissed).bind f
  · exact .bind_of_eq_ok (hx.takes found) (hf found lost hlater.symm hlost)

theorem Needs.bind {x : Reader α} {f : α → Reader β} (hx : x.Needs offset bytes a)
    (hf : (f a).Needs (offset + bytes.length) more b) :
    (x >>= f).Needs offset (bytes ++ more) b :=
  ⟨hx.takes.bind hf.takes, hx.stops_bind hf.stops⟩

/-- Whether whatever the reader takes is needed. -/
def Demands (reader : Reader α) : Prop :=
  ∀ cursor value next, reader cursor = .ok (value, next) →
    ∃ bytes, cursor.rest = bytes ++ next.rest ∧ reader.Needs cursor.offset bytes value

/-- What was read leaves the bytes after those that were taken. -/
theorem Needs.next_eq {reader : Reader α} {cursor next : Cursor}
    (h : reader.Needs cursor.offset bytes a) (hrest : cursor.rest = bytes ++ next.rest)
    (hread : reader cursor = .ok (a, next)) : next = ⟨next.rest, cursor.offset + bytes.length⟩ := by
  have htakes := h.takes next.rest
  rw [← hrest] at htakes
  exact (Prod.mk.inj (Except.ok.inj (hread.symm.trans htakes))).2

/-! ### One after the other -/

theorem demands_pure (a : α) : (pure a : Reader α).Demands := by
  intro cursor value next h
  obtain ⟨rfl, rfl⟩ := pure_eq_ok.mp h
  exact ⟨[], rfl, needs_nil (takes_pure _ _)⟩

theorem Demands.bind {x : Reader α} {f : α → Reader β} (hx : x.Demands)
    (hf : ∀ a, (f a).Demands) : (x >>= f).Demands := by
  intro cursor value next h
  obtain ⟨a, between, ha, h⟩ := bind_eq_ok.mp h
  obtain ⟨bytes, hrest, hneeds⟩ := hx cursor a between ha
  obtain ⟨more, hrest', hneeds'⟩ := hf a between value next h
  rw [hneeds.next_eq hrest ha] at hneeds'
  refine ⟨bytes ++ more, ?_, hneeds.bind hneeds'⟩
  rw [hrest, hrest', List.append_assoc]

theorem demands_malformed (cause : Malformation) : (malformed cause : Reader α).Demands :=
  fun _ _ _ h => absurd h malformed_ne_ok

theorem demands_ite {p : Prop} [Decidable p] {x y : Reader α} (hx : x.Demands) (hy : y.Demands) :
    (if p then x else y).Demands := by
  split_ifs
  · exact hx
  · exact hy

/-- A check that comes before a step only stops what would be malformed. -/
theorem demands_guard {p : Prop} [Decidable p] {cause : Malformation} {f : α → Reader β}
    {x : Reader β} (h : x.Demands) : (if p then malformed cause >>= f else x).Demands := by
  refine demands_ite (fun _ _ _ hread => ?_) h
  exact absurd (bind_eq_ok.mp hread) (fun ⟨_, _, hm, _⟩ => malformed_ne_ok hm)

theorem demands_lift (x : Except ClassFault α) : (liftM x : Reader α).Demands := by
  intro cursor value next h
  obtain ⟨hx, rfl⟩ := lift_eq_ok.mp h
  exact ⟨[], rfl, needs_nil (takes_lift hx _)⟩

theorem demands_offset : Reader.offset.Demands := by
  intro cursor value next h
  obtain ⟨rfl, rfl⟩ := Prod.mk.inj (Except.ok.inj h)
  exact ⟨[], rfl, needs_nil fun _ => rfl⟩

/-! ### Bytes and numbers -/

theorem demands_take (n : Nat) : (take n).Demands := by
  intro cursor value next h
  obtain ⟨rfl, hrest⟩ := rest_of_take h
  refine ⟨value, hrest, takes_take value _, fun part lost hparts hlost => ?_⟩
  refine ⟨_, _, _, (take_eq_error_iff _ _ _).mpr ⟨?_, rfl⟩⟩
  have hpos := List.length_pos_iff.mpr hlost
  rw [← hparts, List.length_append]
  show part.length < part.length + lost.length
  omega

theorem demands_number (n : Nat) : (number n).Demands :=
  (demands_take n).bind fun _ => demands_pure _

theorem demands_uint8 : uint8.Demands := (demands_number 1).bind fun _ => demands_pure _

theorem demands_uint16 : uint16.Demands := (demands_number 2).bind fun _ => demands_pure _

theorem demands_uint32 : uint32.Demands := (demands_number 4).bind fun _ => demands_pure _

theorem demands_uint64 : uint64.Demands := (demands_number 8).bind fun _ => demands_pure _

theorem demands_int32 : int32.Demands := demands_uint32.bind fun _ => demands_pure _

theorem demands_int64 : int64.Demands := demands_uint64.bind fun _ => demands_pure _

/-! ### Lists -/

theorem repeatedFrom_succ (reader : Reader α) (n : Nat) (found : List α) :
    repeatedFrom reader (n + 1) found =
      reader >>= fun value => repeatedFrom reader n (value :: found) := by
  funext cursor
  show _ = (reader cursor >>= fun (value, next) => repeatedFrom reader n (value :: found) next)
  rw [repeatedFrom]
  cases reader cursor <;> rfl

theorem demands_repeatedFrom {reader : Reader α} (h : reader.Demands) (n : Nat) (found : List α) :
    (repeatedFrom reader n found).Demands := by
  induction n generalizing found with
  | zero => exact demands_pure _
  | succ n ih =>
    rw [repeatedFrom_succ]
    exact h.bind fun _ => ih _

theorem demands_list {reader : Reader α} (h : reader.Demands) : (list reader).Demands :=
  demands_uint16.bind fun _ => demands_repeatedFrom h _ []

/-! ### Up to the end -/

/-- Whether the reader makes a value of nothing but all of the bytes: it misses those that are cut
off, and refuses those that follow. -/
def Closes (reader : Reader α) (cause : Nat → Malformation) : Prop :=
  ∀ cursor value next, reader cursor = .ok (value, next) →
    (∀ part lost, part ++ lost = cursor.rest → lost ≠ [] →
      reader.Stops ⟨part, cursor.offset⟩) ∧
    ∀ more, more ≠ [] →
      reader ⟨cursor.rest ++ more, cursor.offset⟩ = .error (.malformed (cause more.length))

variable {cause : Nat → Malformation}

/-- What ends after bytes that are needed is a whole. -/
theorem Demands.closes {x : Reader α} {f : α → Reader β} (hx : x.Demands)
    (hf : ∀ a, (f a).Closes cause) : (x >>= f).Closes cause := by
  intro cursor value next h
  obtain ⟨a, between, ha, h⟩ := bind_eq_ok.mp h
  obtain ⟨bytes, hrest, hneeds⟩ := hx cursor a between ha
  obtain ⟨hcut, hlong⟩ := hf a between value next h
  rw [hneeds.next_eq hrest ha] at hcut hlong
  refine ⟨?_, fun more hmore => ?_⟩
  · rw [hrest]
    exact hneeds.stops_bind hcut
  · rw [hrest, List.append_assoc, Reader.bind_of_eq_ok (hneeds.takes _)]
    exact hlong more hmore

theorem closes_finished (x : Reader α) : (finished cause >>= fun _ => x).Closes cause := by
  intro cursor value next h
  obtain ⟨_, between, hend, -⟩ := bind_eq_ok.mp h
  have hrest := rest_of_finished hend
  refine ⟨fun part lost hparts hlost => ?_, fun more hmore => ?_⟩
  · rw [hrest] at hparts
    exact absurd (List.append_eq_nil_iff.mp hparts).2 hlost
  · rw [hrest, List.nil_append]
    show (finished cause ⟨more, cursor.offset⟩ >>= _) = _
    rw [finished, if_neg (by simpa using hmore)]
    rfl

theorem closes_guard {p : Prop} [Decidable p] {fault : Malformation} {f : β → Reader α}
    {x : Reader α} (h : x.Closes cause) : (if p then malformed fault >>= f else x).Closes cause := by
  split_ifs
  · intro cursor value next hread
    exact absurd (bind_eq_ok.mp hread) (fun ⟨_, _, hm, _⟩ => malformed_ne_ok hm)
  · exact h

end ClassGraft.Reader
