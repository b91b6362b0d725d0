import ClassGraft.Proofs.Frame.Executed

/-!
# Executing instructions on frames that correspond

Two frames correspond if their words and their locals are related type by type
(`Frame.Corresponds`).  An instruction that is executed on both leaves frames that correspond again,
in whatever way types are related, as long as the operations on single types respect it
(`Scene.Ties.execute`).
-/

namespace ClassGraft

/-- Whether what a step gives has a property; where that is sure, the step does not fail. -/
structure Except.Keeps {ε α : Type} (sure : Prop) (P : α → Prop) (x : Except ε α) : Prop where
  holds : ∀ a, x = .ok a → P a
  succeeds : sure → ∃ a, x = .ok a

namespace Except

variable {ε ε' α β : Type} {sure : Prop} {P : α → Prop} {R : β → Prop}

theorem keeps_ok {a : α} (h : P a) : Keeps sure P (.ok a : Except ε α) :=
  ⟨fun _ ha => Except.ok.inj ha ▸ h, fun _ => ⟨a, rfl⟩⟩

theorem keeps_of_eq {x : Except ε α} {a : α} (hx : x = .ok a) (h : P a) : Keeps sure P x :=
  hx ▸ keeps_ok h

theorem Keeps.bind {x : Except ε α} {f : α → Except ε β} (hx : Keeps sure P x)
    (hf : ∀ a, P a → Keeps sure R (f a)) : Keeps sure R (x >>= f) := by
  refine ⟨fun b hb => ?_, fun hs => ?_⟩
  · obtain ⟨a, ha, hb⟩ := bind_eq_ok.mp hb
    exact (hf a (hx.holds a ha)).holds b hb
  · obtain ⟨a, ha⟩ := hx.succeeds hs
    obtain ⟨b, hb⟩ := (hf a (hx.holds a ha)).succeeds hs
    exact ⟨b, bind_eq_ok.mpr ⟨a, ha, hb⟩⟩

end Except

/-! ### Frames -/

/-- Slots of which the last one cannot be used any more if it is wide, as another value takes its
second slot. -/
theorem FrameType.getD_spoiled (slots : List FrameType) :
    (match slots.getLast? with
      | some last => if last.isWide then slots.dropLast ++ [top] else slots
      | none => slots).length = slots.length ∧
    ∀ i < slots.length, (match slots.getLast? with
      | some last => if last.isWide then slots.dropLast ++ [top] else slots
      | none => slots).getD i top =
        if i + 1 = slots.length ∧ (slots.getD i top).isWide = true then top
        else slots.getD i top := by
  rcases List.eq_nil_or_concat' slots with rfl | ⟨front, last, rfl⟩
  · exact ⟨rfl, fun i hi => absurd hi (Nat.not_lt_zero i)⟩
  rw [List.getLast?_concat, List.dropLast_concat, List.length_append, List.length_singleton]
  dsimp only
  refine ⟨by split_ifs <;> simp, fun i hi => ?_⟩
  simp only [List.getD_eq_getElem?_getD]
  rcases Nat.lt_succ_iff_lt_or_eq.mp hi with hlt | rfl
  · have hne : ¬(i + 1 = front.length + 1 ∧ ((front ++ [last])[i]?.getD top).isWide = true) :=
      fun h => absurd h.1 (by omega)
    rw [if_neg hne]
    split_ifs
    · rw [List.getElem?_append_left hlt, List.getElem?_append_left hlt]
    · rfl
  · rw [List.getElem?_concat_length, Option.getD_some]
    by_cases hw : last.isWide = true
    · rw [if_pos hw, if_pos ⟨rfl, hw⟩, List.getElem?_concat_length]
      rfl
    · rw [if_neg hw, if_neg fun h => hw h.2, List.getElem?_concat_length]
      rfl

namespace Frame

/-- The locals before the slot that is stored into, filled up to it, hold what they held, but for a
wide value whose second slot is taken. -/
theorem exists_locals_store (frame : Frame) (slot : UInt16) (type : FrameType) :
    ∃ front : List FrameType, front.length = slot.toNat ∧
      (∀ i < slot.toNat, front.getD i .top =
        if i + 1 = slot.toNat ∧ (frame.localAt i).isWide = true then .top else frame.localAt i) ∧
      (frame.store slot type).locals =
        front ++ FrameType.expand [type] ++ frame.locals.drop (slot.toNat + type.size) := by
  have hlength : (frame.locals.take slot.toNat ++ List.replicate
      (slot.toNat - (frame.locals.take slot.toNat).length) FrameType.top).length = slot.toNat := by
    rw [List.length_append, List.length_replicate, List.length_take]
    omega
  have hfront : ∀ i < slot.toNat, (frame.locals.take slot.toNat ++ List.replicate
      (slot.toNat - (frame.locals.take slot.toNat).length) FrameType.top).getD i .top =
        frame.localAt i := by
    intro i hi
    rw [localAt, List.getD_eq_getElem?_getD, List.getD_eq_getElem?_getD, List.getElem?_append]
    split_ifs with h
    · rw [List.getElem?_take_of_lt hi]
    · rw [List.length_take, Nat.lt_min, not_and] at h
      rw [List.getElem?_eq_none (Nat.le_of_not_lt (h hi)), List.getElem?_replicate]
      split_ifs <;> rfl
  obtain ⟨hspoiled, hslots⟩ := FrameType.getD_spoiled (frame.locals.take slot.toNat ++
    List.replicate (slot.toNat - (frame.locals.take slot.toNat).length) FrameType.top)
  refine ⟨_, hspoiled.trans hlength, fun i hi => ?_, rfl⟩
  rw [hslots i (hlength.symm ▸ hi), hlength, hfront i hi]

/-- The locals after a store: the value with its second slot, and what was there, except for a wide
value whose second slot is taken. -/
theorem localAt_store (frame : Frame) (slot : UInt16) (type : FrameType) (i : Nat) :
    (frame.store slot type).localAt i =
      if i < slot.toNat then
        if i + 1 = slot.toNat ∧ (frame.localAt i).isWide = true then .top else frame.localAt i
      else if i < slot.toNat + type.size then if i = slot.toNat then type else .top
      else frame.localAt i := by
  obtain ⟨front, hlength, hfront, hlocals⟩ := frame.exists_locals_store slot type
  have hsize : (FrameType.expand [type]).length = type.size := by
    rw [FrameType.expand_cons, FrameType.size]
    split_ifs <;> rfl
  have hstored (k : Nat) (hk : k < type.size) : (FrameType.expand [type])[k]?.getD .top =
      if k = 0 then type else .top := by
    rw [FrameType.expand_cons]
    rw [FrameType.size] at hk
    split_ifs at hk ⊢ with hw hz hz
    · obtain rfl := hz
      rfl
    · obtain rfl : k = 1 := by omega
      rfl
    · obtain rfl := hz
      rfl
    · omega
  rw [localAt, hlocals, List.append_assoc, List.getD_eq_getElem?_getD]
  by_cases hlt : i < slot.toNat
  · rw [if_pos hlt, List.getElem?_append_left (hlength.symm ▸ hlt), ← hfront i hlt,
      List.getD_eq_getElem?_getD]
  rw [if_neg hlt, List.getElem?_append_right (by omega), hlength]
  by_cases hin : i < slot.toNat + type.size
  · rw [if_pos hin, List.getElem?_append_left (by omega), hstored _ (by omega)]
    exact if_congr (by omega) rfl rfl
  · rw [if_neg hin, List.getElem?_append_right (by omega), List.getElem?_drop, hsize, localAt,
      List.getD_eq_getElem?_getD]
    congr 2
    omega

end Frame

/-- Whether the words of two frames are related, and their locals. -/
structure Frame.Corresponds (W L : FrameType → FrameType → Prop) (first second : Frame) : Prop where
  stack : List.Forall₂ W first.stack second.stack
  locals : ∀ slot, L (first.localAt slot) (second.localAt slot)

theorem Frame.localAt_construct {frame : Frame} {value : FrameType} (hv : value ≠ .top)
    (name : Bytes) (slot : Nat) : (frame.construct value name).localAt slot =
      if frame.localAt slot = value then .object name else frame.localAt slot := by
  unfold localAt construct
  rw [List.getD_eq_getElem?_getD, List.getD_eq_getElem?_getD, List.getElem?_map]
  cases frame.locals[slot]? with
  | none => exact (if_neg hv.symm).symm
  | some type => rfl

namespace Frame.Corresponds

variable {W L : FrameType → FrameType → Prop} {f g f' : Frame} {a b : FrameType}

theorem push (h : f.Corresponds W L g) (hq : W a b) (hw : a.isWide = b.isWide)
    (htop : W .top .top) : (f.push a).Corresponds W L (g.push b) := by
  refine ⟨?_, h.locals⟩
  unfold Frame.push
  rw [hw]
  split_ifs
  · exact .cons htop (.cons hq h.stack)
  · exact .cons hq h.stack

theorem drop {count : Nat} (h : f.Corresponds W L g) (hd : f.drop count = .ok f') :
    ∃ g', g.drop count = .ok g' ∧ f'.Corresponds W L g' := by
  obtain ⟨hle, rfl⟩ := drop_eq_ok.mp hd
  exact ⟨_, drop_eq_ok.mpr ⟨h.stack.length_eq ▸ hle, rfl⟩,
    List.forall₂_drop count h.stack, h.locals⟩

theorem dropEach {operands : List Nat} (h : f.Corresponds W L g)
    (hd : f.dropEach operands = .ok f') :
    ∃ g', g.dropEach operands = .ok g' ∧ f'.Corresponds W L g' := by
  obtain ⟨g', hg, hcorr⟩ := h.drop (dropEach_eq_ok.mp hd)
  exact ⟨g', dropEach_eq_ok.mpr hg, hcorr⟩

theorem pop (h : f.Corresponds W L g) (hp : f.pop = .ok (a, f')) :
    ∃ b g', g.pop = .ok (b, g') ∧ W a b ∧ f'.Corresponds W L g' := by
  obtain ⟨hstack, hlocals⟩ := pop_eq_ok.mp hp
  have hwords := h.stack
  rw [hstack] at hwords
  obtain ⟨b, rest, hq, hrest, hg⟩ := List.forall₂_cons_left_iff.mp hwords
  refine ⟨b, ⟨g.locals, rest⟩, pop_eq_ok.mpr ⟨hg, rfl⟩, hq, hrest, fun slot => ?_⟩
  have hslot := h.locals slot
  unfold localAt at hslot ⊢
  rwa [hlocals]

theorem store (h : f.Corresponds W L g) (slot : UInt16) (hq : L a b) (hs : a.size = b.size)
    (htop : L .top .top)
    (hwide : ∀ slot, ((f.localAt slot).isWide = true → (g.localAt slot).isWide = true) ∧
      ((g.localAt slot).isWide = true → (f.localAt slot).isWide = true ∨ f.localAt slot = .top)) :
    (f.store slot a).Corresponds W L (g.store slot b) := by
  refine ⟨h.stack, fun i => ?_⟩
  rw [localAt_store, localAt_store, ← hs]
  have hi := h.locals i
  split_ifs with hlt hf hg hg
  · exact htop
  · exact absurd ⟨hf.1, (hwide i).1 hf.2⟩ hg
  · -- the wide value that only the second frame holds cannot be used any more
    rcases (hwide i).2 hg.2 with hwide | hnone
    · exact absurd ⟨hg.1, hwide⟩ hf
    · exact hnone ▸ htop
  · exact hi
  · exact hq
  · exact htop
  · exact hi

/-- Objects are constructed in both frames. -/
theorem construct (h : f.Corresponds W L g) {name name' : Bytes} (ha : a ≠ .top) (hb : b ≠ .top)
    (hw : ∀ c d, W c d →
      W (if c = a then .object name else c) (if d = b then .object name' else d))
    (hl : ∀ c d, L c d →
      L (if c = a then .object name else c) (if d = b then .object name' else d)) :
    (f.construct a name).Corresponds W L (g.construct b name') := by
  refine ⟨?_, fun slot => ?_⟩
  · refine List.forall₂_map_left_iff.mpr (List.forall₂_map_right_iff.mpr ?_)
    exact h.stack.imp fun c d hq => hw c d hq
  · rw [localAt_construct ha, localAt_construct hb]
    exact hl _ _ (h.locals slot)

end Frame.Corresponds

/-! ### Scenes -/

/-- Whether words and locals that are related are treated alike in two scenes.  What can be executed
in the first scene can be executed in the second one, where that is sure. -/
structure Scene.Ties (sure : Prop) (W L : FrameType → FrameType → Prop) (first second : Scene) :
    Prop where
  pool : second.pool = first.pool
  head : second.head = first.head
  value : ∀ {type : FrameType}, type.isInitialized = true → W type type
  store : ∀ {a b : FrameType}, W a b → L a b
  load : ∀ {a b : FrameType} {expected : Expected}, L a b →
    Frame.isExpected expected a = true → W a b ∧ Frame.isExpected expected b = true
  wide : ∀ {a b : FrameType}, L a b → b.isWide = true → a.isWide = true ∨ a = .top
  unready : sure → ∀ {a : FrameType}, L a .uninitializedThis → a = .uninitializedThis
  element : ∀ {a b type : FrameType}, W a b → Frame.elementOf a = .ok type →
    Except.Keeps sure (W type) (Frame.elementOf b)
  construct : ∀ {a b : FrameType} {name : Bytes}, W a b → first.constructed a = .ok name →
    Except.Keeps sure (fun other =>
      (∀ c d, W c d → W (if c = a then .object name else c) (if d = b then .object other else d)) ∧
      ∀ c d, L c d → L (if c = a then .object name else c) (if d = b then .object other else d))
      (second.constructed b)

theorem Frame.load_eq_ok {frame : Frame} {slot : UInt16} {expected : Expected} {type : FrameType} :
    frame.load slot expected = .ok type ↔
      frame.localAt slot.toNat = type ∧ isExpected expected type = true := by
  unfold load localAt
  rw [List.getD_eq_getElem?_getD]
  cases hslot : frame.locals[slot.toNat]? with
  | none =>
    rw [Option.getD_none]
    refine ⟨nofun, ?_⟩
    rintro ⟨rfl, h⟩
    cases expected <;> nomatch h
  | some found =>
    rw [Option.getD_some]
    dsimp only
    split_ifs with h
    · exact ⟨fun he => ⟨Except.ok.inj he, Except.ok.inj he ▸ h⟩, fun he => he.1 ▸ rfl⟩
    · refine ⟨nofun, ?_⟩
      rintro ⟨rfl, he⟩
      exact absurd he h

/-- The elements of an array of references take one slot. -/
theorem Frame.isWide_elementOf {array type : FrameType} (h : elementOf array = .ok type) :
    type.isWide = false := by
  unfold elementOf at h
  split at h
  · obtain rfl := Except.ok.inj h
    rfl
  · split at h
    · obtain rfl := Except.ok.inj h
      rfl
    · nomatch h
  · nomatch h

theorem FrameType.isWide_of_isExpected {a b : FrameType} {expected : Expected}
    (ha : Frame.isExpected expected a = true) (hb : Frame.isExpected expected b = true) :
    a.isWide = b.isWide := by
  have hnarrow {type : FrameType} (h : type.isReference = true) : type.isWide = false := by
    cases type with
    | long => nomatch h
    | double => nomatch h
    | _ => rfl
  cases expected with
  | reference => rw [hnarrow ha, hnarrow hb]
  | _ => rw [eq_of_beq ha, eq_of_beq hb]

theorem FrameType.ne_top {type : FrameType} (h : type.isReference = true) : type ≠ top := by
  rintro rfl
  nomatch h

theorem FrameType.exists_isExpected_of_isWide {type : FrameType} (h : type.isWide = true) :
    ∃ expected, Frame.isExpected expected type = true ∧ expected ≠ .reference := by
  cases type with
  | long => exact ⟨.long, rfl, nofun⟩
  | double => exact ⟨.double, rfl, nofun⟩
  | _ => nomatch h

namespace Scene.Ties

variable {sure : Prop} {W L : FrameType → FrameType → Prop} {first second : Scene}
  {before before' after : Frame} {a b : FrameType}

theorem isWide_of_isWide (h : first.Ties sure W L second) (hq : L a b) (ha : a.isWide = true) :
    b.isWide = true := by
  obtain ⟨expected, hexpected, -⟩ := FrameType.exists_isExpected_of_isWide ha
  exact FrameType.isWide_of_isExpected hexpected (h.load hq hexpected).2 ▸ ha

theorem isReference (h : first.Ties sure W L second) (hq : W a b) (ha : a.isReference = true) :
    b.isReference = true := by
  have hexpected : Frame.isExpected .reference a = true := ha
  exact (h.load (h.store hq) hexpected).2

/-- A value is put on both stacks. -/
theorem push (h : first.Ties sure W L second) (hb : before.Corresponds W L before') {type : FrameType}
    (ht : type.isInitialized = true) : (before.push type).Corresponds W L (before'.push type) :=
  hb.push (h.value ht) rfl (h.value rfl)

theorem pushAll (h : first.Ties sure W L second) (hb : before.Corresponds W L before')
    {type : Option FrameType} (ht : ∀ value, type = some value → value.isInitialized = true) :
    (before.pushAll type).Corresponds W L (before'.pushAll type) := by
  cases type with
  | none => exact hb
  | some value => exact h.push hb (ht value rfl)

theorem pushResult (h : first.Ties sure W L second) (hb : before.Corresponds W L before')
    (result : Option ValueType) : (before.pushAll (result.map FrameType.ofValue)).Corresponds W L
      (before'.pushAll (result.map FrameType.ofValue)) := by
  refine h.pushAll hb fun value hvalue => ?_
  obtain ⟨type, -, rfl⟩ := Option.map_eq_some_iff.mp hvalue
  exact FrameType.isInitialized_ofValue type

theorem getD (h : first.Ties sure W L second) {words words' : List FrameType}
    (hw : List.Forall₂ W words words') (depth : Nat) :
    W (words.getD depth .top) (words'.getD depth .top) := by
  induction hw generalizing depth with
  | nil => exact h.value rfl
  | cons hq _ ih =>
    cases depth with
    | zero => exact hq
    | succ depth => exact ih depth

theorem loaded (h : first.Ties sure W L second) (hb : before.Corresponds W L before') {slot : UInt16}
    {expected : Expected} (hl : before.load slot expected = .ok a) :
    ∃ b, before'.load slot expected = .ok b ∧ W a b ∧ a.isWide = b.isWide := by
  obtain ⟨rfl, ha⟩ := Frame.load_eq_ok.mp hl
  obtain ⟨hq, hexpected⟩ := h.load (hb.locals slot.toNat) ha
  exact ⟨_, Frame.load_eq_ok.mpr ⟨rfl, hexpected⟩, hq,
    FrameType.isWide_of_isExpected ha hexpected⟩

theorem stored (h : first.Ties sure W L second) (hb : before.Corresponds W L before')
    (slot : UInt16) (hq : W a b) (hw : a.isWide = b.isWide) :
    (before.store slot a).Corresponds W L (before'.store slot b) := by
  have hsize : a.size = b.size := by rw [FrameType.size, FrameType.size, hw]
  exact hb.store slot (h.store hq) hsize (h.store (h.value rfl)) fun i =>
    ⟨h.isWide_of_isWide (hb.locals i), h.wide (hb.locals i)⟩

/-! ### Effects -/

theorem apply (h : first.Ties sure W L second) (hb : before.Corresponds W L before') {effect : Effect}
    (hv : ∀ operands value, effect = .compute operands (some value) → value.isInitialized = true)
    (ha : first.apply before effect = .ok after) :
    Except.Keeps sure (after.Corresponds W L) (second.apply before' effect) := by
  cases apply_eq_ok.mp ha with
  | @compute operands value taken htaken =>
    obtain ⟨taken', htaken', hcorr⟩ := hb.dropEach htaken
    refine Except.keeps_of_eq (apply_eq_ok.mpr (.compute htaken')) (h.pushAll hcorr ?_)
    rintro type rfl
    exact hv operands type rfl
  | @shuffle count depths hc =>
    refine Except.keeps_of_eq (apply_eq_ok.mpr (.shuffle (hb.stack.length_eq ▸ hc))) ⟨?_, hb.locals⟩
    refine List.rel_append ?_ (List.forall₂_drop count hb.stack)
    refine List.forall₂_map_left_iff.mpr (List.forall₂_map_right_iff.mpr ?_)
    exact List.forall₂_same.mpr fun depth _ => h.getD hb.stack depth
  | @loadReference dropped rest array type hd hp ht =>
    obtain ⟨dropped', hd', hdropped⟩ := hb.drop hd
    obtain ⟨array', rest', hp', hq, hrest⟩ := hdropped.pop hp
    have helement : Except.Keeps sure (fun type' => (rest.push type).Corresponds W L (rest'.push type'))
        (Frame.elementOf array') := by
      have hkept := h.element hq ht
      refine ⟨fun type' ht' => ?_, hkept.succeeds⟩
      have hwide := (Frame.isWide_elementOf ht).trans (Frame.isWide_elementOf ht').symm
      exact hrest.push (hkept.holds type' ht') hwide (h.value rfl)
    have heq : second.apply before' .loadReference =
        (Frame.elementOf array' >>= fun type' => pure (rest'.push type')) := by
      show (before'.drop 1 >>= fun dropped => dropped.pop >>= fun x => _) = _
      rw [hd']
      show (dropped'.pop >>= fun x => _) = _
      rw [hp']
      rfl
    rw [heq]
    exact helement.bind fun _ hcorr => Except.keeps_ok hcorr
  | finish hc =>
    have hfinish : second.apply before' .finish =
        if second.head.name = constructorName ∧ before'.locals.contains .uninitializedThis then
          .error .noSuperCall else .ok before' := rfl
    rw [hfinish, h.head]
    refine ⟨fun a ha => ?_, fun hs => ?_⟩
    · split_ifs at ha
      exact Except.ok.inj ha ▸ hb
    · refine ⟨before', if_neg fun hbad => hc ⟨hbad.1, ?_⟩⟩
      obtain ⟨slot, hslot⟩ := List.mem_iff_getElem?.mp (List.contains_iff_mem.mp hbad.2)
      have hq := hb.locals slot
      have hat : before'.localAt slot = .uninitializedThis := by
        rw [Frame.localAt, List.getD_eq_getElem?_getD, hslot]
        rfl
      rw [hat] at hq
      have hthis := FrameType.getElem?_eq_some_of_getD (h.unready hs hq)
        (by rintro ⟨⟩)
      exact List.contains_iff_mem.mpr (List.mem_of_getElem? hthis)

/-! ### Instructions -/

theorem access (h : first.Ties sure W L second) (hb : before.Corresponds W L before') {op : Opcode}
    {slot : UInt16} (ha : Scene.access before op slot = .ok after) :
    Except.Keeps sure (after.Corresponds W L) (Scene.access before' op slot) := by
  have hload {expected : Expected}
      (hl : (do return before.push (← before.load slot expected)) = Except.ok after) :
      Except.Keeps sure (after.Corresponds W L)
        (do return before'.push (← before'.load slot expected)) := by
    obtain ⟨a, hslot, hl⟩ := Except.bind_eq_ok.mp hl
    obtain rfl := Except.pure_eq_ok.mp hl
    obtain ⟨b, hb', hq, hw⟩ := h.loaded hb hslot
    exact Except.keeps_of_eq (Except.bind_eq_ok.mpr ⟨b, hb', rfl⟩) (hb.push hq hw (h.value rfl))
  have hstore {type : FrameType} (ht : type.isInitialized = true)
      (hs : (do return (← before.drop type.size).store slot type) = Except.ok after) :
      Except.Keeps sure (after.Corresponds W L)
        (do return (← before'.drop type.size).store slot type) := by
    obtain ⟨rest, hd, hs⟩ := Except.bind_eq_ok.mp hs
    obtain rfl := Except.pure_eq_ok.mp hs
    obtain ⟨rest', hd', hrest⟩ := hb.drop hd
    exact Except.keeps_of_eq (Except.bind_eq_ok.mpr ⟨rest', hd', rfl⟩)
      (h.stored hrest slot (h.value ht) rfl)
  unfold Scene.access at ha ⊢
  dsimp only at ha ⊢
  split at ha
  · nomatch ha
  · exact hload ha
  · exact hload ha
  · exact hload ha
  · exact hload ha
  · exact hload ha
  · exact hstore rfl ha
  · exact hstore rfl ha
  · exact hstore rfl ha
  · exact hstore rfl ha
  · obtain ⟨⟨type, rest⟩, hp, ha⟩ := Except.bind_eq_ok.mp ha
    dsimp only at ha
    split_ifs at ha with hr
    obtain rfl := Except.pure_eq_ok.mp ha
    obtain ⟨type', rest', hp', hq, hrest⟩ := hb.pop hp
    have hr' := h.isReference hq hr
    refine Except.keeps_of_eq (Except.bind_eq_ok.mpr ⟨(type', rest'), hp', if_pos hr'⟩) ?_
    exact h.stored hrest slot hq (@FrameType.isWide_of_isExpected _ _ .reference hr hr')
  · nomatch ha

theorem call (h : first.Ties sure W L second) (hb : before.Corresponds W L before')
    {hasReceiver : Bool} {index : UInt16} (hc : first.call before hasReceiver index = .ok after) :
    Except.Keeps sure (after.Corresponds W L) (second.call before' hasReceiver index) := by
  obtain ⟨member, type, taken, hmember, htype, htaken, hc⟩ := call_eq_ok.mp hc
  rw [← h.pool] at hmember
  obtain ⟨taken', htaken', hcorr⟩ := hb.dropEach htaken
  have hstart {result : Frame} (hrest : if hasReceiver = false then
      taken'.pushAll (type.result.map FrameType.ofValue) = result
      else ∃ receiver rest, taken'.pop = .ok (receiver, rest) ∧ receiver.isReference = true ∧
        if member.name = constructorName then ∃ name, second.constructed receiver = .ok name ∧
          (rest.construct receiver name).pushAll (type.result.map FrameType.ofValue) = result
        else rest.pushAll (type.result.map FrameType.ofValue) = result) :
      second.call before' hasReceiver index = .ok result :=
    call_eq_ok.mpr ⟨member, type, taken', hmember, htype, htaken', hrest⟩
  cases hasReceiver with
  | false =>
    obtain rfl : taken.pushAll (type.result.map FrameType.ofValue) = after := hc
    exact Except.keeps_of_eq (hstart rfl) (h.pushResult hcorr _)
  | true =>
    obtain ⟨receiver, rest, hp, hr, hc⟩ := hc
    obtain ⟨receiver', rest', hp', hq, hrest⟩ := hcorr.pop hp
    have hr' := h.isReference hq hr
    by_cases hname : member.name = constructorName
    · rw [if_pos hname] at hc
      obtain ⟨name, hconstructed, rfl⟩ := hc
      have hkept := h.construct hq hconstructed
      refine ⟨fun result hresult => ?_, fun hs => ?_⟩
      · obtain ⟨member', type', taken'', hmember', htype', htaken'', hc⟩ := call_eq_ok.mp hresult
        obtain rfl := Option.some.inj (hmember.symm.trans hmember')
        obtain rfl := Option.some.inj (htype.symm.trans htype')
        obtain rfl := Except.ok.inj (htaken'.symm.trans htaken'')
        obtain ⟨receiver'', rest'', hp'', -, hc⟩ := hc
        obtain ⟨rfl, rfl⟩ := Prod.mk.inj (Except.ok.inj (hp'.symm.trans hp''))
        rw [if_pos hname] at hc
        obtain ⟨name', hname', rfl⟩ := hc
        obtain ⟨hwords, hlocals⟩ := hkept.holds name' hname'
        exact h.pushResult (hrest.construct (FrameType.ne_top hr) (FrameType.ne_top hr') hwords
          hlocals) _
      · obtain ⟨name', hname'⟩ := hkept.succeeds hs
        exact ⟨_, hstart ⟨receiver', rest', hp', hr', by
          rw [if_pos hname]
          exact ⟨name', hname', rfl⟩⟩⟩
    · rw [if_neg hname] at hc
      obtain rfl := hc
      exact Except.keeps_of_eq (hstart ⟨receiver', rest', hp', hr', if_neg hname ▸ rfl⟩)
        (h.pushResult hrest _)

theorem callComputed (h : first.Ties sure W L second) (hb : before.Corresponds W L before')
    {index : UInt16} (hc : first.callComputed before index = .ok after) :
    ∃ after', second.callComputed before' index = .ok after' ∧ after.Corresponds W L after' := by
  obtain ⟨site, type, taken, hsite, htype, htaken, rfl⟩ := callComputed_eq_ok.mp hc
  rw [← h.pool] at hsite
  obtain ⟨taken', htaken', hcorr⟩ := hb.dropEach htaken
  exact ⟨_, callComputed_eq_ok.mpr ⟨site, type, taken', hsite, htype, htaken', rfl⟩,
    h.pushResult hcorr _⟩

theorem jump (hb : before.Corresponds W L before') {op : Opcode}
    (hj : Scene.jump before op = .ok after) :
    ∃ after', Scene.jump before' op = .ok after' ∧ after.Corresponds W L after' := by
  unfold Scene.jump at hj ⊢
  split_ifs at hj ⊢
  · obtain rfl := Except.ok.inj hj
    exact ⟨before', rfl, hb⟩
  · exact hb.drop hj
  · exact hb.drop hj

/-- A value is put on both stacks after words were taken from them. -/
theorem replace (h : first.Ties sure W L second) (hb : before.Corresponds W L before') {count : Nat}
    {type : FrameType} (ht : type.isInitialized = true)
    (hr : (do return (← before.drop count).push type) = Except.ok after) :
    ∃ after', (do return (← before'.drop count).push type) = Except.ok after' ∧
      after.Corresponds W L after' := by
  obtain ⟨rest, hd, hr⟩ := Except.bind_eq_ok.mp hr
  obtain rfl := Except.pure_eq_ok.mp hr
  obtain ⟨rest', hd', hrest⟩ := hb.drop hd
  exact ⟨_, Except.bind_eq_ok.mpr ⟨rest', hd', rfl⟩, h.push hrest ht⟩

theorem accessField (h : first.Ties sure W L second) (hb : before.Corresponds W L before')
    {op : Opcode} {index : UInt16} (hf : first.accessField before op index = .ok after) :
    ∃ after', second.accessField before' op index = .ok after' ∧ after.Corresponds W L after' := by
  obtain ⟨type, htype, hf⟩ := Except.bind_eq_ok.mp hf
  have hinitialized := Pool.isInitialized_fieldType htype
  rw [← h.pool] at htype
  split at hf
  · obtain rfl := Except.pure_eq_ok.mp hf
    exact ⟨_, Except.bind_eq_ok.mpr ⟨type, htype, rfl⟩, h.push hb hinitialized⟩
  · obtain ⟨after', hafter', hcorr⟩ := hb.drop hf
    exact ⟨after', Except.bind_eq_ok.mpr ⟨type, htype, hafter'⟩, hcorr⟩
  · obtain ⟨after', hafter', hcorr⟩ := h.replace hb hinitialized hf
    exact ⟨after', Except.bind_eq_ok.mpr ⟨type, htype, hafter'⟩, hcorr⟩
  · obtain ⟨rest, hd, hf⟩ := Except.bind_eq_ok.mp hf
    obtain ⟨rest', hd', hrest⟩ := hb.drop hd
    obtain ⟨after', hafter', hcorr⟩ := hrest.drop hf
    refine ⟨after', Except.bind_eq_ok.mpr ⟨type, htype, ?_⟩, hcorr⟩
    rename_i hstatic hput hget _
    split
    · exact (hstatic rfl).elim
    · exact (hput rfl).elim
    · exact (hget rfl).elim
    · exact Except.bind_eq_ok.mpr ⟨rest', hd', hafter'⟩

theorem classOp (h : first.Ties sure W L second) (hb : before.Corresponds W L before')
    {mark mark' : Mark} {op : Opcode} {index : UInt16}
    (hmade : op = Opcode.newObject → W (.uninitialized mark) (.uninitialized mark'))
    (hc : first.classOp before mark op index = .ok after) :
    ∃ after', second.classOp before' mark' op index = .ok after' ∧
      after.Corresponds W L after' := by
  obtain ⟨name, hname, hc⟩ := Except.bind_eq_ok.mp hc
  rw [← h.pool] at hname
  split at hc
  · obtain rfl := Except.pure_eq_ok.mp hc
    exact ⟨_, Except.bind_eq_ok.mpr ⟨name, hname, rfl⟩, hb.push (hmade rfl) rfl (h.value rfl)⟩
  · obtain ⟨after', hafter', hcorr⟩ := h.replace hb rfl hc
    exact ⟨after', Except.bind_eq_ok.mpr ⟨name, hname, hafter'⟩, hcorr⟩
  · obtain ⟨after', hafter', hcorr⟩ := h.replace hb rfl hc
    exact ⟨after', Except.bind_eq_ok.mpr ⟨name, hname, hafter'⟩, hcorr⟩
  · obtain ⟨after', hafter', hcorr⟩ := h.replace hb rfl hc
    refine ⟨after', Except.bind_eq_ok.mpr ⟨name, hname, ?_⟩, hcorr⟩
    rename_i hnew harray hcast
    split
    · exact (hnew rfl).elim
    · exact (harray rfl).elim
    · exact (hcast rfl).elim
    · exact hafter'

/-- Instructions that only differ in the marks of their targets do the same. -/
theorem execute_mapTargets (scene : Scene) (step : Step) (number : Mark → Mark) (frame : Frame) :
    scene.execute ⟨step.mark, step.instruction.mapTargets number⟩ frame =
      scene.execute step frame := by
  obtain ⟨mark, instruction⟩ := step
  cases instruction <;> rfl

/-- An instruction that is executed on frames that correspond leaves frames that correspond. -/
theorem execute (h : first.Ties sure W L second) {instruction : Instruction Mark} {mark mark' : Mark}
    (hmade : W (.uninitialized mark) (.uninitialized mark')) (hb : before.Corresponds W L before')
    (hx : first.execute ⟨mark, instruction⟩ before = .ok after) :
    Except.Keeps sure (after.Corresponds W L) (second.execute ⟨mark', instruction⟩ before') := by
  have hsure {x : Except FrameFault Frame}
      (hx : ∃ after', x = .ok after' ∧ after.Corresponds W L after') :
      Except.Keeps sure (after.Corresponds W L) x := by
    obtain ⟨after', hx, hcorr⟩ := hx
    exact Except.keeps_of_eq hx hcorr
  cases instruction with
  | plain op =>
    unfold Scene.execute at hx ⊢
    dsimp only at hx ⊢
    cases heffect : op.effect? with
    | none =>
      rw [heffect] at hx
      nomatch hx
    | some effect =>
      rw [heffect] at hx
      exact h.apply hb (fun operands value he => Opcode.isInitialized_of_effect? (he ▸ heffect)) hx
  | bytePush value =>
    obtain rfl := Except.ok.inj hx
    exact Except.keeps_ok (h.push hb rfl)
  | shortPush value =>
    obtain rfl := Except.ok.inj hx
    exact Except.keeps_ok (h.push hb rfl)
  | constant index =>
    obtain ⟨type, ht, hx⟩ := Except.bind_eq_ok.mp hx
    obtain rfl := Except.pure_eq_ok.mp hx
    have hpush := h.push hb (Pool.isInitialized_constantType ht)
    rw [← h.pool] at ht
    exact hsure ⟨_, Except.bind_eq_ok.mpr ⟨type, ht, rfl⟩, hpush⟩
  | access op slot => exact h.access hb hx
  | increment slot amount =>
    obtain ⟨type, hl, hx⟩ := Except.bind_eq_ok.mp hx
    obtain rfl := Except.pure_eq_ok.mp hx
    obtain ⟨type', hl', -, -⟩ := h.loaded hb hl
    exact hsure ⟨before', Except.bind_eq_ok.mpr ⟨type', hl', rfl⟩, hb⟩
  | jump op target => exact hsure (jump hb hx)
  | tableSwitch otherwise low high targets => exact hsure (hb.drop hx)
  | lookupSwitch otherwise pairs => exact hsure (hb.drop hx)
  | field op index => exact hsure (h.accessField hb hx)
  | invoke op index => exact h.call hb hx
  | invokeInterface index count => exact h.call hb hx
  | invokeDynamic index => exact hsure (h.callComputed hb hx)
  | classOp op index => exact hsure (h.classOp hb (fun _ => hmade) hx)
  | newArray element =>
    obtain ⟨array, rest, harray, hd, rfl⟩ := newArray_eq_ok.mp hx
    obtain ⟨rest', hd', hrest⟩ := hb.drop hd
    exact hsure ⟨_, newArray_eq_ok.mpr ⟨array, rest', harray, hd', rfl⟩, h.push hrest rfl⟩
  | newMultiArray index dimensions =>
    obtain ⟨name, rest, hname, hfits, hd, rfl⟩ := newMultiArray_eq_ok.mp hx
    rw [← h.pool] at hname
    obtain ⟨rest', hd', hrest⟩ := hb.drop hd
    exact hsure ⟨_, newMultiArray_eq_ok.mpr ⟨name, rest', hname, hfits, hd', rfl⟩, h.push hrest rfl⟩

end Scene.Ties

end ClassGraft
