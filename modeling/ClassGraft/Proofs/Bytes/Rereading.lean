import ClassGraft.Proofs.Bytes.Reading
import ClassGraft.Proofs.Bytes.Restoring

/-!
# Reading bytes again

What was written is read back list by list, also where the value of a part depends on the offset at
which it stands (`Reader.exists_takes_listOf`), and up to the end of the bytes (`Reader.Ends`).

Bytes that were read may stand elsewhere when they are read again.  `Reader.Follows` says that a
reader makes of them what another one made of them, up to a relation between the values, when both
count from the offsets where the bytes start.
-/

namespace ClassGraft.Reader

variable {α β γ δ : Type}

/-- What is found without taking bytes leaves them to what is done with it. -/
theorem Takes.nil_bind {x : Reader α} {f : α → Reader β} {offset : Nat} {bytes : Bytes} {a : α}
    {b : β} (hx : x.Takes offset [] a) (hf : (f a).Takes offset bytes b) :
    (x >>= f).Takes offset bytes b :=
  Takes.bind hx hf

/-! ### Lists that were written -/

/-- Each part is read back at the offset where it stands, and what was read before stays. -/
theorem exists_takes_repeatedFrom {R : α → β → Prop} {reader : Reader β}
    {write : α → Except ClassFault Bytes} {items : List α} {parts : List Bytes}
    (hw : items.mapM write = .ok parts)
    (h : ∀ item ∈ items, ∀ part, write item = .ok part → ∀ offset,
      ∃ value, R item value ∧ reader.Takes offset part value)
    (found : List β) (offset : Nat) :
    ∃ values, List.Forall₂ R items values ∧
      (repeatedFrom reader items.length found).Takes offset parts.flatten
        (found.reverse ++ values) := by
  replace hw := Except.mapM_eq_ok.mp hw
  induction hw generalizing found offset with
  | nil =>
    refine ⟨[], .nil, ?_⟩
    rw [List.append_nil]
    exact fun _ => rfl
  | @cons item part items parts hpart _ ih =>
    obtain ⟨hfirst, hrest⟩ := List.forall_mem_cons.mp h
    obtain ⟨value, hvalue, htakes⟩ := hfirst part hpart offset
    obtain ⟨values, hvalues, hmore⟩ := ih hrest (value :: found) (offset + part.length)
    refine ⟨value :: values, .cons hvalue hvalues, fun rest => ?_⟩
    rw [List.flatten_cons, List.append_assoc]
    simp only [List.length_cons, repeatedFrom, htakes (parts.flatten ++ rest)]
    rw [hmore rest, List.reverse_cons, List.append_assoc, List.length_append, Nat.add_assoc]
    rfl

/-- A list that was written is read back, if each of its parts is. -/
theorem exists_takes_listOf {R : α → β → Prop} {reader : Reader β}
    {write : α → Except ClassFault Bytes} {items : List α} {bytes : Bytes}
    (hw : Bytes.listOf write items = .ok bytes)
    (h : ∀ item ∈ items, ∀ part, write item = .ok part → ∀ offset,
      ∃ value, R item value ∧ reader.Takes offset part value)
    (offset : Nat) :
    ∃ values, List.Forall₂ R items values ∧ (list reader).Takes offset bytes values := by
  obtain ⟨hlength, parts, hparts, rfl⟩ := Bytes.listOf_eq_ok_iff.mp hw
  obtain ⟨values, hvalues, htakes⟩ := exists_takes_repeatedFrom hparts h []
    (offset + (Bytes.ofUInt16 (UInt16.ofNat items.length)).length)
  refine ⟨values, hvalues, (takes_uint16 _ offset).bind ?_⟩
  rw [UInt16.toNat_ofNat_of_lt' hlength]
  exact htakes

/-- What is so of each part for the value that its item stands for. -/
theorem forall₂_of_mapM {P : Bytes → β → Prop} {write : α → Except ClassFault Bytes}
    {items : List α} {parts : List Bytes} {values : List β} (hw : items.mapM write = .ok parts)
    (h : List.Forall₂ (fun item value => ∀ part, write item = .ok part → P part value) items
      values) : List.Forall₂ P parts values := by
  replace hw := Except.mapM_eq_ok.mp hw
  induction hw generalizing values with
  | nil =>
    cases h
    exact .nil
  | cons hpart _ ih =>
    cases h with
    | cons hvalue hrest => exact .cons (hvalue _ hpart) (ih hrest)

/-- A list that was written is read back as given values, if its parts are read back as these. -/
theorem takes_listOf {reader : Reader β} {write : α → Except ClassFault Bytes} {items : List α}
    {values : List β} {bytes : Bytes} (hw : Bytes.listOf write items = .ok bytes)
    (h : List.Forall₂ (fun item value => ∀ part, write item = .ok part → ∀ offset,
      reader.Takes offset part value) items values)
    (offset : Nat) : (list reader).Takes offset bytes values := by
  obtain ⟨hlength, parts, hparts, rfl⟩ := Bytes.listOf_eq_ok_iff.mp hw
  rw [h.length_eq] at hlength ⊢
  exact takes_list hlength (forall₂_of_mapM hparts h) offset

/-- A table of rows is read back as what the rows stand for; items without a row are left out. -/
theorem takes_tableOf {reader : Reader β} {row? : α → Option (List UInt16)} {f : α → β}
    {items : List α} {bytes : Bytes} (hw : Bytes.tableOf id (items.filterMap row?) = .ok bytes)
    (h : ∀ item ∈ items, ∀ row, row? item = some row → ∀ offset,
      reader.Takes offset (row.flatMap Bytes.ofUInt16) (f item))
    (offset : Nat) :
    (list reader).Takes offset bytes ((items.filter fun item => (row? item).isSome).map f) := by
  refine takes_listOf hw ?_ offset
  clear hw
  induction items with
  | nil => exact .nil
  | cons item items ih =>
    obtain ⟨hfirst, hrest⟩ := List.forall_mem_cons.mp h
    cases hrow : row? item with
    | none =>
      rw [List.filterMap_cons_none hrow, List.filter_cons_of_neg (by simp [hrow])]
      exact ih hrest
    | some row =>
      rw [List.filterMap_cons_some hrow, List.filter_cons_of_pos (by simp [hrow]), List.map_cons]
      refine .cons (fun part hpart offset => ?_) (ih hrest)
      obtain rfl := Except.ok.inj hpart
      exact hfirst row hrow offset

theorem takes_lift {x : Except ClassFault α} {a : α} (h : x = .ok a) (offset : Nat) :
    (liftM x : Reader α).Takes offset [] a :=
  fun _ => lift_eq_ok.mpr ⟨h, rfl⟩

/-- A part is read back if the reader of the part makes the value of it. -/
theorem takes_within {x : Reader α} {offset : Nat} {bytes : Bytes} {a : α} {next : Cursor}
    (h : x ⟨bytes, offset⟩ = .ok (a, next)) : (within bytes.length x).Takes offset bytes a := by
  intro rest
  unfold within
  rw [take_append]
  dsimp only
  rw [h]

/-! ### Up to the end -/

/-- Whether the reader makes a value of the bytes at an offset when nothing follows. -/
def Ends (reader : Reader α) (offset : Nat) (bytes : Bytes) (value : α) : Prop :=
  ∃ next, reader ⟨bytes, offset⟩ = .ok (value, next)

theorem Takes.bind_ends {x : Reader α} {f : α → Reader β} {offset : Nat} {bytes more : Bytes}
    {a : α} {b : β} (hx : x.Takes offset bytes a)
    (hf : (f a).Ends (offset + bytes.length) more b) : (x >>= f).Ends offset (bytes ++ more) b := by
  obtain ⟨next, hnext⟩ := hf
  exact ⟨next, (bind_of_eq_ok (hx more)).trans hnext⟩

/-- What is done with a value that was read may be all that there is to do. -/
theorem Takes.nil_bind_ends {x : Reader α} {f : α → Reader β} {offset : Nat} {bytes : Bytes}
    {a : α} {b : β} (hx : x.Takes offset [] a) (hf : (f a).Ends offset bytes b) :
    (x >>= f).Ends offset bytes b :=
  Takes.bind_ends hx hf

theorem ends_pure (a : α) (offset : Nat) (bytes : Bytes) : (pure a : Reader α).Ends offset bytes a :=
  ⟨_, rfl⟩

theorem ends_remaining {f : Bytes → Reader α} {offset : Nat} {bytes : Bytes} {a : α}
    (h : (f bytes).Ends offset bytes a) : (remaining >>= f).Ends offset bytes a := by
  obtain ⟨next, hnext⟩ := h
  exact ⟨next, (bind_of_eq_ok rfl).trans hnext⟩

/-- At the end nothing is left. -/
theorem ends_finished {cause : Nat → Malformation} {x : Reader α} {offset : Nat} {a : α}
    (h : x.Ends offset [] a) : (finished cause >>= fun _ => x).Ends offset [] a := by
  obtain ⟨next, hnext⟩ := h
  exact ⟨next, (bind_of_eq_ok rfl).trans hnext⟩

/-! ### Elsewhere -/

variable {base base' : Nat} {R : α → β → Prop} {S : γ → δ → Prop}

/-- Whether bytes of which the first reader makes a value are ones of which the other makes a related
value, when they stand as far from an offset as they stood from another one. -/
def Follows (base base' : Nat) (R : α → β → Prop) (reader : Reader α) (other : Reader β) : Prop :=
  ∀ rest distance value next, reader ⟨rest, base + distance⟩ = .ok (value, next) →
    ∃ value' length, R value value' ∧ next.offset = base + (distance + length) ∧
      other ⟨rest, base' + distance⟩ = .ok (value', ⟨next.rest, base' + (distance + length)⟩)

theorem follows_pure {a : α} {b : β} (h : R a b) :
    Follows base base' R (pure a : Reader α) (pure b) := by
  intro rest distance value next hread
  obtain ⟨rfl, rfl⟩ := pure_eq_ok.mp hread
  exact ⟨b, 0, h, rfl, rfl⟩

theorem Follows.bind {x : Reader α} {y : Reader β} {f : α → Reader γ} {g : β → Reader δ}
    (hx : Follows base base' R x y) (hf : ∀ a b, R a b → Follows base base' S (f a) (g b)) :
    Follows base base' S (x >>= f) (y >>= g) := by
  intro rest distance value next hread
  obtain ⟨a, ⟨left, offset⟩, ha, hread⟩ := bind_eq_ok.mp hread
  obtain ⟨b, length, hab, rfl, hb⟩ := hx rest distance a _ ha
  obtain ⟨value', more, hvalue, hoffset, hother⟩ :=
    hf a b hab left (distance + length) value next hread
  rw [Nat.add_assoc distance] at hoffset hother
  exact ⟨value', length + more, hvalue, hoffset, (bind_of_eq_ok hb).trans hother⟩

/-- Readers of the same value go on alike. -/
theorem Follows.bind_eq {x y : Reader α} {f : α → Reader γ} {g : α → Reader δ}
    (hx : Follows base base' Eq x y) (hf : ∀ a, Follows base base' S (f a) (g a)) :
    Follows base base' S (x >>= f) (y >>= g) :=
  hx.bind fun a _ hab => hab ▸ hf a

theorem follows_malformed {cause : Malformation} {y : Reader β} :
    Follows base base' R (malformed cause : Reader α) y :=
  fun _ _ _ _ h => absurd h malformed_ne_ok

theorem follows_ite {c : Prop} [Decidable c] {x y : Reader α} {z w : Reader β}
    (ht : c → Follows base base' R x z) (hf : ¬c → Follows base base' R y w) :
    Follows base base' R (if c then x else y) (if c then z else w) := by
  split_ifs with hc
  · exact ht hc
  · exact hf hc

/-- A check that comes before a step stops both readers. -/
theorem follows_guard {p : Prop} [Decidable p] {cause : Malformation} {f : γ → Reader α}
    {g : γ → Reader β} {x : Reader α} {y : Reader β} (h : Follows base base' R x y) :
    Follows base base' R (if p then malformed cause >>= f else x)
      (if p then malformed cause >>= g else y) := by
  refine follows_ite (fun _ rest distance value next hread => ?_) fun _ => h
  obtain ⟨_, _, hm, -⟩ := bind_eq_ok.mp hread
  exact absurd hm malformed_ne_ok

theorem follows_lift {x : Except ClassFault α} {y : Except ClassFault β}
    (h : ∀ a, x = .ok a → ∃ b, y = .ok b ∧ R a b) :
    Follows base base' R (liftM x : Reader α) (liftM y) := by
  intro rest distance value next hread
  obtain ⟨hx, rfl⟩ := lift_eq_ok.mp hread
  obtain ⟨b, hy, hb⟩ := h value hx
  exact ⟨b, 0, hb, rfl, lift_eq_ok.mpr ⟨hy, rfl⟩⟩

theorem follows_remaining : Follows base base' Eq remaining remaining := by
  intro rest distance value next hread
  obtain ⟨rfl, rfl⟩ := Prod.mk.inj (Except.ok.inj hread)
  exact ⟨rest, 0, rfl, rfl, rfl⟩

theorem follows_finished {cause : Nat → Malformation} :
    Follows base base' Eq (finished cause) (finished cause) := by
  intro rest distance value next hread
  obtain rfl : rest = [] := rest_of_finished hread
  obtain ⟨rfl, rfl⟩ := Prod.mk.inj (Except.ok.inj hread)
  exact ⟨(), 0, rfl, rfl, rfl⟩

theorem follows_take (n : Nat) : Follows base base' Eq (take n) (take n) := by
  intro rest distance value next hread
  obtain ⟨rfl, hrest⟩ := rest_of_take hread
  obtain rfl : rest = value ++ next.rest := hrest
  rw [take_append] at hread
  obtain ⟨-, hnext⟩ := Prod.mk.inj (Except.ok.inj hread)
  refine ⟨value, value.length, rfl, ?_, ?_⟩
  · rw [← hnext, Nat.add_assoc]
  · rw [take_append, Nat.add_assoc]

/-! ### Numbers and lists elsewhere -/

theorem follows_number (n : Nat) : Follows base base' Eq (number n) (number n) :=
  (follows_take n).bind_eq fun _ => follows_pure rfl

theorem follows_uint8 : Follows base base' Eq uint8 uint8 :=
  (follows_number 1).bind_eq fun _ => follows_pure rfl

theorem follows_uint16 : Follows base base' Eq uint16 uint16 :=
  (follows_number 2).bind_eq fun _ => follows_pure rfl

theorem follows_uint32 : Follows base base' Eq uint32 uint32 :=
  (follows_number 4).bind_eq fun _ => follows_pure rfl

theorem follows_int8 : Follows base base' Eq int8 int8 :=
  follows_uint8.bind_eq fun _ => follows_pure rfl

theorem follows_int16 : Follows base base' Eq int16 int16 :=
  follows_uint16.bind_eq fun _ => follows_pure rfl

theorem follows_int32 : Follows base base' Eq int32 int32 :=
  follows_uint32.bind_eq fun _ => follows_pure rfl

theorem follows_repeatedFrom {x : Reader α} {y : Reader β} (h : Follows base base' R x y) (n : Nat)
    {found : List α} {found' : List β} (hf : List.Forall₂ R found found') :
    Follows base base' (List.Forall₂ R) (repeatedFrom x n found) (repeatedFrom y n found') := by
  induction n generalizing found found' with
  | zero =>
    intro rest distance values next hread
    obtain ⟨rfl, rfl⟩ := Prod.mk.inj (Except.ok.inj hread)
    exact ⟨_, 0, List.rel_reverse hf, rfl, rfl⟩
  | succ n ih =>
    intro rest distance values next hread
    unfold repeatedFrom at hread
    split at hread
    · simp at hread
    · rename_i value between hvalue
      obtain ⟨left, offset⟩ := between
      obtain ⟨value', length, hrel, rfl, hvalue'⟩ := h rest distance value _ hvalue
      obtain ⟨values', more, hvalues, hoffset, hother⟩ :=
        ih (.cons hrel hf) left (distance + length) values next hread
      rw [Nat.add_assoc distance] at hoffset hother
      refine ⟨values', length + more, hvalues, hoffset, ?_⟩
      rw [repeatedFrom, hvalue']
      exact hother

theorem follows_repeated {x : Reader α} {y : Reader β} (h : Follows base base' R x y) (n : Nat) :
    Follows base base' (List.Forall₂ R) (repeated n x) (repeated n y) :=
  follows_repeatedFrom h n .nil

theorem follows_list {x : Reader α} {y : Reader β} (h : Follows base base' R x y) :
    Follows base base' (List.Forall₂ R) (list x) (list y) :=
  follows_uint16.bind_eq fun _ => follows_repeated h _

/-- Lists of the same values are the same. -/
theorem Follows.eq_of_forall₂ {x y : Reader (List α)}
    (h : Follows base base' (List.Forall₂ Eq) x y) : Follows base base' Eq x y := by
  rwa [List.forall₂_eq_eq_eq] at h

theorem follows_within {x : Reader α} {y : Reader β} (n : Nat)
    (h : ∀ base base', Follows base base' R x y) :
    Follows base base' R (within n x) (within n y) := by
  intro rest distance value next hread
  unfold within at hread ⊢
  split at hread
  · simp at hread
  · rename_i part after hpart
    obtain ⟨_, length, rfl, hoffset, hpart'⟩ := follows_take n rest distance part after hpart
    split at hread
    · simp at hread
    · rename_i found last hfound
      obtain ⟨rfl, rfl⟩ := Prod.mk.inj (Except.ok.inj hread)
      obtain ⟨value', _, hvalue, -, hother⟩ :=
        h (base + distance) (base' + distance) part 0 found last hfound
      refine ⟨value', length, hvalue, hoffset, ?_⟩
      rw [hpart']
      dsimp only
      rw [show base' + distance = base' + distance + 0 from rfl, hother]

end ClassGraft.Reader
